import Lichen.Coap.Block

namespace Lichen.Coap

open Lichen.Lib

structure BlockExchange where
  sender : BlockSender
  receiver : BlockReceiver

namespace BlockExchange

def ackOf (ackSzx : Nat) (block : BlockOption) : BlockOption :=
  if block.num = 0 then { block with szx := ackSzx } else block

/-- One block is offered, received and acknowledged; a refused block changes nothing. -/
def round (ackSzx : Nat) (exchange : BlockExchange) : BlockExchange :=
  match exchange.sender.nextBlock with
  | none => exchange
  | some (block, data) =>
    match exchange.receiver.receiveBlock block data with
    | .error _ => exchange
    | .ok (_, receiver) =>
      match exchange.sender.acknowledge block (ackOf ackSzx block) with
      | .error _ => { exchange with receiver }
      | .ok (_, sender) => { sender, receiver }

def Complete (exchange : BlockExchange) (body : Bytes) : Prop :=
  exchange.sender.complete = true ∧ exchange.receiver.complete = true ∧
    exchange.receiver.payload = body

def stopOf (body : Bytes) (szx k : Nat) : Nat :=
  min (k * exponentSize szx + exponentSize szx) body.length

def blockOf (body : Bytes) (szx k : Nat) : BlockOption := ⟨k, stopOf body szx k < body.length, szx⟩

def dataOf (body : Bytes) (szx k : Nat) : Bytes :=
  body.extract (k * exponentSize szx) (stopOf body szx k)

structure At (body : Bytes) (szx k : Nat) (exchange : BlockExchange) : Prop where
  szx_le : szx ≤ 6
  data : exchange.sender.data = body
  blockSize : exchange.sender.blockSize = exponentSize szx
  currentBlock : exchange.sender.currentBlock = k
  sent : exchange.sender.complete = decide (body.length ≤ k * exponentSize szx)
  received : exchange.receiver.data = body.take (k * exponentSize szx)
  complete : exchange.receiver.complete = decide (body.length ≤ k * exponentSize szx)
  expectedSize : exchange.receiver.expectedSize = none

variable {body : Bytes} {szx k ackSzx next : Nat} {exchange : BlockExchange}

theorem At.length_le (h : At body szx k exchange) : body.length ≤ maxPayload :=
  h.data ▸ exchange.sender.bounded

theorem At.nextBlock (h : At body szx k exchange) (hlt : k * exponentSize szx < body.length) :
    exchange.sender.nextBlock = some (blockOf body szx k, dataOf body szx k) := by
  have hcomplete : exchange.sender.complete = false := by
    rw [h.sent]
    exact decide_eq_false (Nat.not_le.mpr hlt)
  have hnext := exchange.sender.nextBlock_eq_some hcomplete
    (by rw [h.currentBlock, h.blockSize, h.data]; exact hlt)
  rw [hnext, h.currentBlock, h.blockSize, h.data, sizeToSzx_exponentSize h.szx_le]
  rfl

theorem length_dataOf : (dataOf body szx k).length = stopOf body szx k - k * exponentSize szx :=
  length_extract_of_le (Nat.min_le_right _ _)

theorem length_dataOf_le : (dataOf body szx k).length ≤ (blockOf body szx k).size := by
  rw [length_dataOf, stopOf]
  change _ ≤ exponentSize szx
  omega

theorem length_dataOf_eq (hmore : (blockOf body szx k).more) :
    (dataOf body szx k).length = (blockOf body szx k).size := by
  have hmore : stopOf body szx k < body.length := of_decide_eq_true hmore
  rw [stopOf] at hmore
  rw [length_dataOf, stopOf]
  change _ = exponentSize szx
  omega

theorem At.receiveBlock (h : At body szx k exchange) (hlt : k * exponentSize szx < body.length) :
    ∃ received, exchange.receiver.receiveBlock (blockOf body szx k) (dataOf body szx k) =
        .ok (!(blockOf body szx k).more, received) ∧ received.data = body.take (stopOf body szx k) ∧
      received.complete = !(blockOf body szx k).more ∧ received.expectedSize = none := by
  have hhave : exchange.receiver.data.length = k * exponentSize szx := by
    rw [h.received, List.length_take_of_le (Nat.le_of_lt hlt)]
  have hopen : exchange.receiver.complete = false := by
    rw [h.complete]
    exact decide_eq_false (Nat.not_le.mpr hlt)
  have hstop : k * exponentSize szx ≤ stopOf body szx k := by
    rw [stopOf]
    omega
  have hbounded : exchange.receiver.data.length + (dataOf body szx k).length ≤ maxPayload := by
    rw [hhave, length_dataOf, Nat.add_sub_cancel' hstop]
    exact Nat.le_trans (Nat.min_le_right _ _) h.length_le
  obtain ⟨received, hreceive, hdata, hcomplete, hexpected⟩ :=
    BlockReceiver.receiveBlock_eq_ok hopen length_dataOf_le length_dataOf_eq hhave.symm hbounded
      h.expectedSize
  refine ⟨received, hreceive, ?_, hcomplete, hexpected⟩
  rw [hdata, h.received, dataOf, List.extract_eq_take_drop, ← List.take_add,
    Nat.add_sub_cancel' hstop]

/-- A size that covers what was sent: the one sent, or one for the whole body. -/
def Covers (body : Bytes) (szx k next : Nat) : Prop :=
  next = szx ∨ k = 0 ∧ next ≤ szx ∧ body.length ≤ exponentSize next

theorem Covers.le (h : Covers body szx k next) : next ≤ szx := by
  obtain rfl | ⟨-, hle, -⟩ := h
  · exact Nat.le_refl next
  · exact hle

theorem Covers.stopOf_eq (h : Covers body szx k next) : stopOf body szx k = stopOf body next k := by
  obtain rfl | ⟨rfl, hle, hcover⟩ := h
  · rfl
  · have := exponentSize_mono hle
    rw [stopOf, stopOf]
    omega

theorem ackEnd_blockOf (hbody : body.length ≤ maxPayload) (hszx : szx ≤ 6)
    (hlt : k * exponentSize szx < body.length) (hcovers : Covers body szx k next) :
    BlockSender.ackEnd body.length (blockOf body szx k) ⟨k, (blockOf body szx k).more, next⟩ =
      .ok (stopOf body szx k) := by
  have hbody : body.length ≤ 4096 := hbody
  have hsize : exponentSize szx ≤ 1024 := exponentSize_mono hszx
  have hpos := sixteen_le_exponentSize next
  have hle := exponentSize_mono hcovers.le
  have hstart : k * exponentSize next ≤ k * exponentSize szx := Nat.mul_le_mul_left k hle
  have hnum : k ≤ k * exponentSize next := Nat.le_mul_of_pos_right k (by omega)
  have hstop : k * exponentSize szx < stopOf body szx k := by
    rw [stopOf]
    omega
  refine BlockSender.ackEnd_eq_ok ?_ ?_ ?_ hcovers.stopOf_eq.symm hstart hstop (Nat.le_refl _)
  · change k * exponentSize szx + exponentSize szx < _
    omega
  · change k * exponentSize next + exponentSize next < _
    omega
  · change k + 1 < _
    omega

theorem At.round_eq (h : At body szx k exchange) (hlt : k * exponentSize szx < body.length)
    (hack : ackOf ackSzx (blockOf body szx k) = ⟨k, (blockOf body szx k).more, next⟩)
    (hle : next ≤ szx) (hend : BlockSender.ackEnd body.length (blockOf body szx k)
      ⟨k, (blockOf body szx k).more, next⟩ = .ok stop) :
    ∃ acked received, exchange.round ackSzx = ⟨acked, received⟩ ∧ acked.data = body ∧
      acked.blockSize = exponentSize next ∧ acked.currentBlock = k + 1 ∧
      acked.complete = decide (body.length ≤ stop) ∧ received.data = body.take (stopOf body szx k) ∧
      received.complete = !(blockOf body szx k).more ∧ received.expectedSize = none := by
  obtain ⟨received, hreceive, hreceived⟩ := h.receiveBlock hlt
  rw [← congrArg List.length h.data] at hend
  obtain ⟨acked, hacked, hdata, hsize, hblock, hsent⟩ :=
    BlockSender.acknowledge_eq_ok (h.nextBlock hlt) hle (by rfl) hend
  refine ⟨acked, received, ?_, hdata.trans h.data, hsize, hblock, h.data ▸ hsent, hreceived⟩
  simp only [BlockExchange.round, h.nextBlock hlt, hreceive, hack, hacked]

theorem At.round (h : At body szx k exchange) (hlt : k * exponentSize szx < body.length)
    (hack : ackOf ackSzx (blockOf body szx k) = ⟨k, (blockOf body szx k).more, next⟩)
    (hcovers : Covers body szx k next) : At body next (k + 1) (exchange.round ackSzx) := by
  obtain ⟨_, _, hround, hdata, hsize, hblock, hsent, hreceived, hcomplete, hexpected⟩ :=
    h.round_eq hlt hack hcovers.le (ackEnd_blockOf h.length_le h.szx_le hlt hcovers)
  have hfinal : body.length ≤ stopOf body szx k ↔ body.length ≤ (k + 1) * exponentSize next := by
    rw [hcovers.stopOf_eq, stopOf, Nat.succ_mul]
    omega
  rw [hround]
  refine ⟨Nat.le_trans hcovers.le h.szx_le, hdata, hsize, hblock, ?_, ?_, ?_, hexpected⟩
  · rw [hsent, decide_eq_decide]
    exact hfinal
  · rw [hreceived, hcovers.stopOf_eq, stopOf, Nat.succ_mul]
    exact (List.take_eq_take_min ..).symm
  · rw [hcomplete, blockOf, ← decide_not, decide_eq_decide, Nat.not_lt]
    exact hfinal

theorem At.complete_of_le (h : At body szx k exchange) (hle : body.length ≤ k * exponentSize szx) :
    exchange.Complete body :=
  ⟨h.sent.trans (decide_eq_true hle), h.complete.trans (decide_eq_true hle),
    h.received.trans (List.take_of_length_le hle)⟩

theorem round_of_complete (h : exchange.Complete body) : exchange.round ackSzx = exchange := by
  rw [BlockExchange.round, BlockSender.nextBlock, if_pos h.1]

theorem At.rounds (h : At body szx k exchange) (hk : 0 < k) (n : Nat) :
    let last := (BlockExchange.round ackSzx)^[n] exchange
    last.Complete body ∨ At body szx (k + n) last := by
  induction n generalizing k exchange with
  | zero => exact .inr h
  | succ n ih =>
    intro last
    by_cases hlt : k * exponentSize szx < body.length
    · have hack : ackOf ackSzx (blockOf body szx k) = blockOf body szx k := if_neg (Nat.ne_of_gt hk)
      have hnext := h.round hlt hack (.inl rfl)
      have hrest := ih hnext (Nat.succ_pos k)
      rwa [Nat.add_right_comm k 1 n] at hrest
    · have hcomplete := h.complete_of_le (Nat.le_of_not_lt hlt)
      have hlast : last = exchange := Function.iterate_fixed (round_of_complete hcomplete) (n + 1)
      exact .inl (hlast ▸ hcomplete)

theorem At.new {sender : BlockSender} {blockSize : Nat}
    (hsender : BlockSender.new body blockSize = .ok sender) (hpos : 0 < body.length)
    (receiverSize : Nat) : At body (sizeToSzx blockSize) 0 ⟨sender, .new receiverSize⟩ := by
  rw [BlockSender.new] at hsender
  split at hsender
  · cases hsender
  cases hsender
  have hincomplete : decide (body.length ≤ 0 * exponentSize (sizeToSzx blockSize)) = false := by
    rw [Nat.zero_mul]
    exact decide_eq_false (Nat.not_le.mpr hpos)
  refine ⟨sizeToSzx_le, rfl, szxToSize_eq sizeToSzx_le, rfl,
    hincomplete.symm, ?_, hincomplete.symm, rfl⟩
  rw [Nat.zero_mul]
  rfl

theorem new_eq_ok (body : Bytes) (blockSize : Nat) (hmax : body.length ≤ maxPayload) :
    ∃ sender, BlockSender.new body blockSize = .ok sender := by
  rw [BlockSender.new, dif_neg (Nat.not_lt.mpr hmax)]
  exact ⟨_, rfl⟩

theorem round_of_behind
    (h : exchange.sender.currentBlock * exchange.sender.blockSize < exchange.receiver.data.length) :
    exchange.round ackSzx = exchange := by
  cases hnext : exchange.sender.nextBlock with
  | none => simp only [BlockExchange.round, hnext]
  | some offered =>
    have hoverlap : offered.1.offset < exchange.receiver.data.length := by
      rwa [BlockSender.offset_of_nextBlock hnext]
    obtain ⟨_, herror⟩ := BlockReceiver.receiveBlock_of_overlap hoverlap offered.2
    simp only [BlockExchange.round, hnext, herror]

section

variable (hlong : exponentSize ackSzx < body.length)

include hlong

theorem ackEnd_reduced (hless : ackSzx < szx) (hszx : szx ≤ 6) :
    BlockSender.ackEnd body.length (blockOf body szx 0) ⟨0, (blockOf body szx 0).more, ackSzx⟩ =
      .ok (exponentSize ackSzx) := by
  have hsmall := exponentSize_mono (Nat.le_of_lt hless)
  have hbound : exponentSize szx ≤ 1024 := exponentSize_mono hszx
  have hsixteen := sixteen_le_exponentSize ackSzx
  have hsent : (blockOf body szx 0).offset = 0 := Nat.zero_mul _
  have hack : (⟨0, (blockOf body szx 0).more, ackSzx⟩ : BlockOption).offset = 0 := Nat.zero_mul _
  have hsentSize : (blockOf body szx 0).size = exponentSize szx := rfl
  have hackSize : (⟨0, (blockOf body szx 0).more, ackSzx⟩ : BlockOption).size =
      exponentSize ackSzx := rfl
  apply BlockSender.ackEnd_eq_ok <;> simp only [hsent, hack, hsentSize, hackSize] <;> omega

theorem At.round_reduced (h : At body szx 0 exchange) (hless : ackSzx < szx) :
    let first := exchange.round ackSzx
    first.sender.complete = false ∧
      first.sender.currentBlock * first.sender.blockSize < first.receiver.data.length := by
  have hlt : 0 * exponentSize szx < body.length := by omega
  have hlarger : exponentSize ackSzx < exponentSize szx :=
    Nat.pow_lt_pow_right (by decide) (by omega)
  obtain ⟨acked, _, hround, -, hsize, hblock, hsent, hreceived, -, -⟩ :=
    h.round_eq hlt (if_pos rfl) (Nat.le_of_lt hless) (ackEnd_reduced hlong hless h.szx_le)
  have hstart : acked.currentBlock * acked.blockSize = exponentSize ackSzx := by
    rw [hblock, hsize]
    exact Nat.one_mul _
  rw [hround]
  constructor
  · rw [hsent]
    exact decide_eq_false (Nat.not_le.mpr hlong)
  · rw [hstart, hreceived, List.length_take, stopOf]
    omega

theorem not_complete_of_reduced (hless : ackSzx < sizeToSzx blockSize) {sender : BlockSender}
    (hsender : BlockSender.new body blockSize = .ok sender) (n : Nat) :
    ¬((round ackSzx)^[n] ⟨sender, .new receiverSize⟩).Complete body := by
  have hstart := At.new hsender (by omega) receiverSize
  obtain ⟨hopen, hbehind⟩ := hstart.round_reduced hlong hless
  cases n with
  | zero =>
    intro hcomplete
    have hdone := hcomplete.1.symm.trans hstart.sent
    have hle := of_decide_eq_true hdone.symm
    omega
  | succ =>
    rw [Function.iterate_succ_apply, Function.iterate_fixed (round_of_behind hbehind)]
    intro hcomplete
    rw [hcomplete.1] at hopen
    cases hopen

end

/-- The exchange ends with the body received exactly if block 0 is acknowledged at its own size or
at one that holds the whole body. -/
theorem complete_iff_covered (body : Bytes) (hpos : 0 < body.length) (hmax : body.length ≤ 4096)
    (blockSize receiverSize ackSzx : Nat) (hack : ackSzx ≤ sizeToSzx blockSize) (n : Nat)
    (hn : body.length ≤ n) :
    ∃ sender, BlockSender.new body blockSize = .ok sender ∧
      (((round ackSzx)^[n] ⟨sender, .new receiverSize⟩).Complete body ↔
        ackSzx = sizeToSzx blockSize ∨ body.length ≤ 16 * 2 ^ ackSzx) := by
  obtain ⟨sender, hsender⟩ := new_eq_ok body blockSize hmax
  have hsize : exponentSize ackSzx = 16 * 2 ^ ackSzx := by
    rw [exponentSize, Nat.pow_add, Nat.mul_comm]
  refine ⟨sender, hsender, fun hcomplete => ?_, fun hcover => ?_⟩
  · by_contra hnot
    obtain ⟨hne, hlong⟩ := not_or.mp hnot
    rw [← hsize, Nat.not_le] at hlong
    exact not_complete_of_reduced hlong (Nat.lt_of_le_of_ne hack hne) hsender n hcomplete
  · have hcovers : Covers body (sizeToSzx blockSize) 0 ackSzx :=
      hcover.imp id fun hle => ⟨rfl, hack, hsize ▸ hle⟩
    have hfirst := (At.new hsender hpos receiverSize).round (by rwa [Nat.zero_mul]) (if_pos rfl)
      hcovers
    obtain ⟨m, rfl⟩ : ∃ m, n = m + 1 := ⟨n - 1, by omega⟩
    obtain hcomplete | hlast := hfirst.rounds Nat.one_pos m
    · exact hcomplete
    · have hsixteen := sixteen_le_exponentSize ackSzx
      refine hlast.complete_of_le ?_
      have hblocks : (0 + 1 + m) * 1 ≤ (0 + 1 + m) * exponentSize ackSzx :=
        Nat.mul_le_mul_left _ (by omega)
      omega

/-- Forty bytes in blocks of 32 bytes, acknowledged at 32 bytes. -/
theorem complete_of_forty_bytes :
    ∃ sender, BlockSender.new (List.replicate 40 7) 32 = .ok sender ∧
      ((round 1)^[40] ⟨sender, .new 64⟩).Complete (List.replicate 40 7) := by
  obtain ⟨sender, hsender, hiff⟩ := complete_iff_covered (List.replicate 40 7) (by decide)
    (by decide) 32 64 1 (by decide) 40 (by decide)
  exact ⟨sender, hsender, hiff.mpr (.inl (by decide))⟩

/-- Forty bytes in blocks of 32 bytes, acknowledged at 16 bytes. -/
theorem not_complete_of_forty_bytes :
    ∃ sender, BlockSender.new (List.replicate 40 7) 32 = .ok sender ∧ 0 ≤ sizeToSzx 32 ∧
      ∀ n, ¬((round 0)^[n] ⟨sender, .new 32⟩).Complete (List.replicate 40 7) := by
  obtain ⟨sender, hsender⟩ := new_eq_ok (List.replicate 40 7) 32 (by decide)
  exact ⟨sender, hsender, Nat.zero_le _,
    not_complete_of_reduced (by decide) (show 0 < sizeToSzx 32 by decide) hsender⟩

end BlockExchange

end Lichen.Coap
