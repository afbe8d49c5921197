import Lichen.Coap.Block
import Lichen.Lib.Guard
import Lichen.Lib.Run

namespace Lichen.Coap.BlockReceiver

open Lichen.Core Lichen.Lib

def nextRequestBlock (receiver : BlockReceiver) : Option BlockOption :=
  (BlockOption.fromSize receiver.expectedBlock false receiver.blockSize).toOption

def receive (receiver : BlockReceiver) (packet : BlockOption × Bytes) : BlockReceiver :=
  match receiver.receiveBlock packet.1 packet.2 with
  | .ok (_, next) => next
  | .error _ => receiver

/-- A block with the bytes of the body at its offset; the last one ends with the body. -/
structure Carries (body : Bytes) (packet : BlockOption × Bytes) : Prop where
  szx_le : packet.1.szx ≤ 6
  data_eq : packet.2 <+: body.drop packet.1.offset
  last : packet.1.more = false → packet.1.offset + packet.2.length = body.length

structure Holds (body : Bytes) (receiver : BlockReceiver) : Prop where
  data_eq : receiver.data <+: body
  whole : receiver.complete = true → receiver.data = body
  next : receiver.complete = false → (∃ szx ≤ 6, receiver.blockSize = exponentSize szx) ∧
    receiver.expectedBlock * receiver.blockSize = receiver.data.length

theorem receiveBlock_ok (h : receiveBlock receiver block bytes = .ok (done, received)) :
    (block.more → bytes.length = block.size) ∧ block.offset = receiver.data.length ∧
      received.data = receiver.data ++ bytes ∧ received.expectedBlock = block.num + 1 ∧
      received.blockSize = block.size ∧ received.complete = !block.more := by
  obtain ⟨-, h⟩ := ite_error_eq_ok.mp h
  obtain ⟨hsize, h⟩ := ite_error_eq_ok.mp h
  obtain ⟨hle, h⟩ := ite_error_eq_ok.mp h
  obtain ⟨hge, h⟩ := ite_error_eq_ok.mp h
  dsimp only at h
  split at h
  · cases h
  obtain ⟨-, ⟨⟩⟩ := ite_error_eq_ok.mp h
  exact ⟨fun hmore => not_not.mp fun hne => hsize (.inr ⟨hmore, hne⟩), by omega, rfl, rfl, rfl, rfl⟩

theorem Holds.receive (h : Holds body receiver) (hpacket : Carries body packet) :
    Holds body (receiver.receive packet) := by
  rw [BlockReceiver.receive]
  split
  · rename_i hcall
    obtain ⟨hmore, hoffset, hdata, hblock, hsize, hcomplete⟩ := receiveBlock_ok hcall
    obtain ⟨_, rfl⟩ := h.data_eq
    have hcarried := hpacket.data_eq
    rw [hoffset, List.drop_left, ← List.prefix_append_right_inj receiver.data, ← hdata] at hcarried
    refine ⟨hcarried, fun hdone => hcarried.eq_of_length ?_,
      fun hopen => ⟨⟨_, hpacket.szx_le, hsize⟩, ?_⟩⟩
    · rw [hcomplete, Bool.not_eq_true'] at hdone
      rw [hdata, ← hpacket.last hdone, hoffset, List.length_append]
    · rw [hcomplete, Bool.not_eq_false'] at hopen
      rw [hblock, hsize, hdata, List.length_append, hmore hopen, ← hoffset, Nat.succ_mul]
      rfl
  · exact h

/-- Whatever arrives of a body, the receiver holds the front of it, asks for the byte after it and
is complete with the whole of it. -/
theorem reception_converges (body : Bytes) (blockSize : Nat) (packets : List (BlockOption × Bytes))
    (hpackets : ∀ packet ∈ packets, Carries body packet) :
    let receiver := run receive (new blockSize) packets
    receiver.payload <+: body ∧
      (∀ packet error, receiver.receiveBlock packet.1 packet.2 = .error error →
        receiver.receive packet = receiver) ∧
      (receiver.complete = false → ∃ request, receiver.nextRequestBlock = some request ∧
        request.offset = receiver.payload.length) ∧
      (receiver.complete = true → receiver.payload = body) := by
  intro receiver
  have hnew : Holds body (new blockSize) :=
    ⟨List.nil_prefix, nofun, fun _ =>
      ⟨⟨_, sizeToSzx_le, szxToSize_eq sizeToSzx_le⟩, Nat.zero_mul _⟩⟩
  have h : Holds body receiver := run_invariant_of_steps (fun _ _ h hpacket => h.receive hpacket) hnew
    packets (steps_of_forall _ hpackets)
  refine ⟨h.data_eq, fun packet error herror => ?_, fun hopen => ?_, h.whole⟩
  · rw [receive, herror]
  · obtain ⟨hsized, hnext⟩ := h.next hopen
    have hblock := BlockOption.fromSize_of_le hsized (hnext.trans_le receiver.bounded) false
    exact ⟨_, by rw [nextRequestBlock, hblock]; rfl, (BlockOption.offset_of_size hsized _).trans hnext⟩

theorem two_blocks_converge :
    (run receive (new 16) [(⟨1, false, 0⟩, [2]), (⟨0, true, 0⟩, List.replicate 16 1),
      (⟨1, false, 0⟩, [2])]).payload = List.replicate 16 1 ++ [2] := by
  have hlast : Carries (List.replicate 16 1 ++ [2]) (⟨1, false, 0⟩, [2]) :=
    ⟨by decide, by decide, by decide⟩
  have hfirst : Carries (List.replicate 16 1 ++ [2]) (⟨0, true, 0⟩, List.replicate 16 1) :=
    ⟨by decide, by decide, by decide⟩
  refine (reception_converges _ 16 _ ?_).2.2.2 (by decide)
  exact List.forall_mem_cons.mpr ⟨hlast, List.forall_mem_cons.mpr ⟨hfirst, by simpa using hlast⟩⟩

end Lichen.Coap.BlockReceiver
