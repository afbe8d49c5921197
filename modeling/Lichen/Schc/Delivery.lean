import Lichen.Lib.Guard
import Lichen.Lib.Run
import Lichen.Schc.Reassembly
import Lichen.Schc.RoundTrip

namespace Lichen.Schc

open Lichen.Lib

/-- What can happen between a sender and a receiver. A message that was emitted may be delivered
any number of times, in any order, or never. The caller writes any output it holds. -/
inductive FragmentEvent where
  | start
  | send (index capacity : Nat)
  | writeNext (output : SenderOutput) (capacity : Nat)
  | timeout
  | toSender (data : Bytes)
  | toReceiver (data : Bytes) (capacity : Nat)
  | expire (capacity : Nat)
  | release

/-- A sender and a receiver with all messages emitted in either direction, and the packets that
were held when the receiver reported one. -/
structure FragmentLink where
  sender : FragmentSender
  receiver : FragmentReceiver
  toReceiver : List Bytes
  toSender : List Bytes
  reported : List (Option Bytes)

namespace FragmentLink

def idle (sender : FragmentSender) (receiver : FragmentReceiver) : FragmentLink :=
  ⟨sender, receiver, [], [], []⟩

def emitted (written : Except FragmentError Bytes) : List Bytes := written.toOption.toList

def answered (response : Option ReceiverResponse) (capacity : Nat) : List Bytes :=
  response.toList.flatMap fun response => emitted (response.writeTo capacity)

def settle (n : FragmentLink) (capacity : Nat) :
    Except FragmentError ReceiverResult × FragmentReceiver → FragmentLink
  | (.error _, receiver) => { n with receiver }
  | (.ok result, receiver) =>
    { n with
      receiver
      toSender := answered result.response capacity ++ n.toSender
      reported := if result.packetLen.isSome then receiver.packet :: n.reported else n.reported }

def step (n : FragmentLink) : FragmentEvent → FragmentLink
  | .start => { n with sender := n.sender.start.toOption.getD n.sender }
  | .send index capacity =>
    match n.sender.getFragment index with
    | none => n
    | some fragment =>
      { n with toReceiver := emitted (fragment.writeTo capacity) ++ n.toReceiver }
  | .writeNext output capacity =>
    match n.sender.writeNext output capacity with
    | .ok (some data, _) => { n with toReceiver := data :: n.toReceiver }
    | _ => n
  | .timeout => { n with sender := n.sender.timeout.2 }
  | .toSender data =>
    if data ∈ n.toSender then { n with sender := (n.sender.handleAckBytes data).2 } else n
  | .toReceiver data capacity =>
    if data ∈ n.toReceiver then n.settle capacity (n.receiver.receiveBytes data) else n
  | .expire capacity =>
    { n with
      receiver := n.receiver.expire.2
      toSender := answered n.receiver.expire.1 capacity ++ n.toSender }
  | .release => { n with receiver := n.receiver.release }

structure LinkInv (s : FragmentSender) (n : FragmentLink) : Prop where
  session : s.SameSession n.sender
  emits : ∀ data ∈ n.toReceiver, s.Emits data
  genuine : FragmentReceiver.Genuine s n.receiver
  delivered : FragmentReceiver.Delivered s n.receiver
  reported : ∀ packet ∈ n.reported, packet = some s.payload
  completed : ∀ data ∈ n.toSender, ∀ ack, Ack.fromBytes data = .ok ack → ack.complete = true →
    some s.payload ∈ n.reported
  succeeded : n.sender.status = .succeeded → some s.payload ∈ n.reported

variable {s : FragmentSender} {n : FragmentLink}

theorem mem_emitted (h : data ∈ emitted written) : written = .ok data := by
  cases written with
  | error => simp [emitted, Except.toOption] at h
  | ok =>
    simp only [emitted, Except.toOption, Option.toList_some, List.mem_singleton] at h
    rw [h]

theorem complete_of_answered {ack : Ack} (h : data ∈ answered response capacity)
    (hack : Ack.fromBytes data = .ok ack) (hcomplete : ack.complete = true) :
    ∃ sent, response = some (.ack sent) ∧ sent.complete = true := by
  obtain ⟨reply, hreply, hmem⟩ := List.mem_flatMap.mp h
  obtain rfl := Option.mem_toList.mp hreply
  have hwrite := mem_emitted hmem
  obtain ⟨hbit, hlength⟩ := Ack.fromBytesFor_complete hack
  cases reply with
  | ack sent =>
    refine ⟨sent, rfl, ?_⟩
    by_contra hincomplete
    exact hbit.mp hcomplete (Ack.writeTo_incomplete hwrite (by simpa using hincomplete))
  | receiverAbort =>
    obtain ⟨-, rfl⟩ := Control.write_ok hwrite
    exact absurd (hlength hcomplete) (by simp)

section

variable (h : LinkInv s n)

include h

theorem LinkInv.withSender {sender : FragmentSender}
    (hsame : n.sender.SameSession sender)
    (hsucceeded : sender.status = .succeeded → some s.payload ∈ n.reported) :
    LinkInv s { n with sender } :=
  ⟨h.session.trans hsame, h.emits, h.genuine, h.delivered, h.reported, h.completed, hsucceeded⟩

theorem LinkInv.emit (messages : List Bytes) (hemits : ∀ data ∈ messages, n.sender.Emits data) :
    LinkInv s { n with toReceiver := messages ++ n.toReceiver } := by
  refine ⟨h.session, fun data hdata => ?_, h.genuine, h.delivered, h.reported, h.completed,
    h.succeeded⟩
  obtain hnew | hold := List.mem_append.mp hdata
  · exact h.session.symm.emits (hemits data hnew)
  · exact h.emits data hold

theorem LinkInv.settle (hcall : FragmentReceiver.SoundCall s p)
    (capacity : Nat) : LinkInv s (n.settle capacity p) := by
  obtain ⟨result | result, receiver⟩ := p
  · exact ⟨h.session, h.emits, hcall.genuine, hcall.delivered, h.reported, h.completed, h.succeeded⟩
  have hsound := hcall.sound result rfl
  have hmono : some s.payload ∈ n.reported → some s.payload ∈
      (if result.packetLen.isSome then receiver.packet :: n.reported else n.reported) := by
    intro hmem
    split
    · exact List.mem_cons_of_mem _ hmem
    · exact hmem
  refine ⟨h.session, h.emits, hsound.genuine, hsound.delivered, ?_, ?_,
    fun hstatus => hmono (h.succeeded hstatus)⟩
  · intro packet hpacket
    simp only [FragmentLink.settle] at hpacket
    split at hpacket
    · rename_i hsome
      obtain ⟨len, hlen⟩ := Option.isSome_iff_exists.mp hsome
      obtain rfl | hold := List.mem_cons.mp hpacket
      · exact hsound.reports len hlen
      · exact h.reported packet hold
    · exact h.reported packet hpacket
  · intro data hdata ack hack hcomplete
    obtain hnew | hold := List.mem_append.mp hdata
    · obtain ⟨sent, hsent, hcompleteSent⟩ := complete_of_answered hnew hack hcomplete
      have hsome := hsound.completes sent hsent hcompleteSent
      obtain ⟨len, hlen⟩ := Option.isSome_iff_exists.mp hsome
      simp only [FragmentLink.settle, hsome, if_true]
      rw [← hsound.reports len hlen]
      exact List.mem_cons_self
    · exact hmono (h.completed data hold ack hack hcomplete)

theorem LinkInv.release (messages : List Bytes)
    (habort : ∀ data ∈ messages, ∀ ack, Ack.fromBytes data = .ok ack → ack.complete = false) :
    LinkInv s { n with receiver := n.receiver.release, toSender := messages ++ n.toSender } := by
  refine ⟨h.session, h.emits, FragmentReceiver.genuine_of_empty rfl rfl, .inl rfl, h.reported,
    fun data hdata ack hack hcomplete => ?_, h.succeeded⟩
  obtain hnew | hold := List.mem_append.mp hdata
  · rw [habort data hnew ack hack] at hcomplete
    cases hcomplete
  · exact h.completed data hold ack hack hcomplete

theorem LinkInv.expire (capacity : Nat) :
    LinkInv s { n with
      receiver := n.receiver.expire.2
      toSender := answered n.receiver.expire.1 capacity ++ n.toSender } := by
  rw [FragmentReceiver.expire]
  split
  · exact h
  · split
    · exact h
    · refine h.release _ fun data hdata ack hack => ?_
      by_contra hcomplete
      obtain ⟨_, hsent, -⟩ := complete_of_answered hdata hack (by simpa using hcomplete)
      cases hsent

end

theorem linkInv_step (hmic : NoMicCollision s.payload) (n : FragmentLink) (event : FragmentEvent)
    (h : LinkInv s n) : LinkInv s (n.step event) := by
  cases event with
  | start =>
    simp only [step]
    cases hstart : n.sender.start with
    | error => exact h
    | ok sender =>
      obtain ⟨hsame, hstatus⟩ := n.sender.start_session hstart
      exact h.withSender hsame fun hsucceeded => absurd hsucceeded hstatus
  | send index capacity =>
    simp only [step]
    split
    · exact h
    · rename_i fragment hget
      exact h.emit _ fun data hdata => .fragment hget (mem_emitted hdata)
  | writeNext output capacity =>
    simp only [step]
    split
    · rename_i data _ hwrite
      refine h.emit [data] fun _ hdata => ?_
      obtain rfl := List.mem_singleton.mp hdata
      exact n.sender.writeNext_emits hwrite
    · exact h
  | timeout =>
    obtain ⟨hsame, hstatus⟩ := n.sender.timeout_session
    exact h.withSender hsame fun hsucceeded => h.succeeded (hstatus hsucceeded)
  | toSender data =>
    simp only [step]
    split
    · rename_i hdata
      obtain ⟨hsame, hstatus⟩ := n.sender.handleAckBytes_session
      refine h.withSender hsame fun hsucceeded => ?_
      obtain hold | ⟨ack, hack, hcomplete⟩ := hstatus hsucceeded
      · exact h.succeeded hold
      · exact h.completed data hdata ack hack hcomplete
    · exact h
  | toReceiver data capacity =>
    simp only [step]
    split
    · rename_i hdata
      exact h.settle (FragmentReceiver.soundCall_receiveBytes hmic h.genuine h.delivered
        (h.emits data hdata)) capacity
    · exact h
  | expire capacity => exact h.expire capacity
  | release => exact h.release [] (by simp)

theorem linkInv_idle {receiver : FragmentReceiver}
    (h : FragmentSender.newUnchecked payload ruleId senderLimit = .ok s)
    (hr : FragmentReceiver.withLimit storage limit = .ok receiver) :
    s.payload = payload ∧ LinkInv s (idle s receiver) := by
  have hsender : s.payload = payload ∧ s.status = .ready := by
    simp only [FragmentSender.newUnchecked] at h
    repeat' split at h
    all_goals cases h
    exact ⟨rfl, rfl⟩
  have hreceiver : receiver.bitmaps = (0, 0) ∧ receiver.all1 = false ∧
      receiver.packetLen = none := by
    simp only [FragmentReceiver.withLimit] at hr
    split at hr
    · cases hr
    · cases hr
      exact ⟨rfl, rfl, rfl⟩
  obtain ⟨hbitmaps, hall1, hnone⟩ := hreceiver
  refine ⟨hsender.1, ⟨rfl, rfl⟩, by simp [idle], FragmentReceiver.genuine_of_empty hbitmaps hall1,
    .inl hnone, by simp [idle], by simp [idle], ?_⟩
  simp [idle, hsender.2]

/-- Whatever is lost, repeated or reordered between the two sides, the receiver reports the payload
of the sender or nothing, and the sender succeeds only after such a report. -/
theorem delivers_payload {payload storage : Bytes} {ruleId : UInt8} {senderLimit limit : Nat}
    {sender : FragmentSender} {receiver : FragmentReceiver}
    (hs : FragmentSender.newUnchecked payload ruleId senderLimit = .ok sender)
    (hr : FragmentReceiver.withLimit storage limit = .ok receiver)
    (hmic : NoMicCollision payload) (events : List FragmentEvent) :
    let n := run step (idle sender receiver) events
    (∀ data ∈ n.toReceiver, ∀ result len, (n.receiver.receiveBytes data).1 = .ok result →
      result.packetLen = some len → (n.receiver.receiveBytes data).2.packet = some payload) ∧
    (∀ packet ∈ n.reported, packet = some payload) ∧
    (n.sender.status = .succeeded → some payload ∈ n.reported) := by
  intro n
  obtain ⟨rfl, hidle⟩ := linkInv_idle hs hr
  have hinv : LinkInv sender n := run_invariant (linkInv_step hmic) hidle events
  refine ⟨fun data hdata result len hresult hlen => ?_, hinv.reported, hinv.succeeded⟩
  exact ((FragmentReceiver.soundCall_receiveBytes hmic hinv.genuine hinv.delivered
    (hinv.emits data hdata)).sound result hresult).reports len hlen

def samplePayload : Bytes := List.replicate tileSize 1 ++ [2]

def sampleFragment (index : Nat) : Bytes :=
  match FragmentSender.newUnchecked samplePayload ruleIdAToB maxPacketSize with
  | .error _ => []
  | .ok sender => ((sender.getFragment index).bind fun f => (f.writeTo 185).toOption).getD []

/-- The All-1 fragment arrives first and its tile goes to the wrong slot; the missing tile and an
ACK request follow. -/
def sampleEvents : List FragmentEvent :=
  [.start, .send 0 185, .send 1 185, .toReceiver (sampleFragment 1) 10,
    .toReceiver (sampleFragment 0) 10, .timeout, .writeNext (.ackRequest false) 185,
    .toReceiver [ruleIdAToB, 0] 10, .toSender [ruleIdAToB, 0x40]]

set_option maxRecDepth 4000 in
theorem delivers_sample_payload :
    ∃ sender receiver,
      FragmentSender.newUnchecked samplePayload ruleIdAToB maxPacketSize = .ok sender ∧
      FragmentReceiver.withLimit (List.replicate 200 0) 200 = .ok receiver ∧
      (run step (idle sender receiver) sampleEvents).sender.status = .succeeded ∧
      some samplePayload ∈ (run step (idle sender receiver) sampleEvents).reported := by
  have hmic : NoMicCollision samplePayload := by
    unfold NoMicCollision
    decide +kernel
  have hrun : ((FragmentSender.newUnchecked samplePayload ruleIdAToB maxPacketSize).toOption.bind
      fun sender => (FragmentReceiver.withLimit (List.replicate 200 0) 200).toOption.map
        fun receiver => (run step (idle sender receiver) sampleEvents).sender.status) =
      some .succeeded := by
    decide +kernel
  obtain ⟨sender, hs, hrun⟩ := Option.bind_eq_some_iff.mp hrun
  obtain ⟨receiver, hr, hsucceeded⟩ := Option.map_eq_some_iff.mp hrun
  rw [toOption_eq_some] at hs hr
  exact ⟨sender, receiver, hs, hr, hsucceeded,
    (delivers_payload hs hr hmic sampleEvents).2.2 hsucceeded⟩

end FragmentLink

end Lichen.Schc

namespace Lichen.Schc.FragmentLink

open Lichen.Lib

/-- Whatever happens to the fragments of a compressed packet, what the receiver reports decompresses
to the packet, up to a zero ICMPv6 checksum, and the sender succeeds only after a report. -/
theorem transports_packet (hcompress : Returns (compress packet) out data)
    (hs : FragmentSender.newUnchecked data ruleId senderLimit = .ok s)
    (hr : FragmentReceiver.withLimit storage limit = .ok r) (hmic : NoMicCollision data)
    (events : List FragmentEvent) : let n := run step (idle s r) events
    (∀ held ∈ n.reported, ∃ data, held = some data ∧
      ∀ room, packet.length ≤ room.length → Returns (decompress data) room (restored packet)) ∧
    (n.sender.status = .succeeded → n.reported ≠ []) := by
  intro n
  obtain ⟨rfl, hidle⟩ := linkInv_idle hs hr
  have hinv : LinkInv s n := run_invariant (linkInv_step hmic) hidle events
  refine ⟨fun held hheld => ⟨_, hinv.reported held hheld, fun room hroom => ?_⟩, fun hdone => ?_⟩
  · exact restores_compress out s.payload room hcompress hroom
  · exact List.ne_nil_of_mem (hinv.succeeded hdone)

theorem transports_echoRequest : ∃ s r,
    let n := run step (idle s r) [.start, .send 0 185, .toReceiver [120, 126, 173, 255, 224, 142, 4,
      128, 0, 0, 0, 0, 0, 0, 0, 2, 0, 0, 0, 0, 0, 0, 0, 5, 0, 0, 0, 0, 2] 10]
    n.reported = [some (echoResidue [0, 0])] ∧ ∀ held ∈ n.reported, ∃ data, held = some data ∧
      ∀ room, 48 ≤ room.length →
        Returns (decompress data) room (restored (echoRequest [0x82, 0xB7] [0, 0])) := by
  have hcompress : Returns (compress (echoRequest [0x82, 0xB7] [0, 0])) (List.replicate 23 0)
      (echoResidue [0, 0]) := by decide +kernel
  have hs : FragmentSender.newUnchecked (echoResidue [0, 0]) ruleIdAToB 48 = .ok _ := rfl
  have hr : FragmentReceiver.withLimit (List.replicate 48 0) 48 = .ok _ := rfl
  have hmic : NoMicCollision (echoResidue [0, 0]) := by
    unfold NoMicCollision
    decide
  refine ⟨_, _, ?_, (transports_packet hcompress hs hr hmic _).1⟩
  decide +kernel

end Lichen.Schc.FragmentLink
