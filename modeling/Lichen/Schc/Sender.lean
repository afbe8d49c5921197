import Lichen.Schc.Ack

namespace Lichen.Schc

open Lichen.Lib

inductive SenderStatus where
  | ready
  | active
  | succeeded
  | aborted
  deriving DecidableEq

inductive SenderOutput where
  | none
  | success
  | abort (written : Bool)
  | retransmit (window : UInt8) (missing : BitVec 64) (position : UInt8) (request : Bool)
  | ackRequest (written : Bool)
  deriving DecidableEq

def tileCount (payload : Bytes) : Nat := (payload.length + tileSize - 1) / tileSize

/-- A sender of one packet. Its session with the peer policy is left out. -/
structure FragmentSender where
  payload : Bytes
  ruleId : UInt8
  count : Nat
  mic : Mic
  attempts : Nat
  status : SenderStatus
  retransmitAtMs : Option Nat
  rule : checkRule ruleId = .ok ()
  nonempty : 1 ≤ payload.length
  length_le : payload.length ≤ maxPacketSize
  count_eq : count = tileCount payload
  mic_eq : mic = computeMic payload

def fragmentBit (fragment : Fragment) : BitVec 64 :=
  if fragment.isAll1 then 1 else 1 <<< fragment.fcn.toNat

namespace FragmentSender

def newUnchecked (payload : Bytes) (ruleId : UInt8) (receiverLimit : Nat) :
    Except FragmentError FragmentSender :=
  if hrule : checkRule ruleId = .ok () then
    if ¬ (1 ≤ receiverLimit ∧ receiverLimit ≤ maxPacketSize) then .error .invalidReceiverLimit
    else if hempty : payload.length = 0 then .error .emptyPacket
    else if hlarge : payload.length > maxPacketSize then .error .packetTooLarge
    else if payload.length > receiverLimit then .error .packetTooLarge
    else .ok
      { payload, ruleId
        count := tileCount payload
        mic := computeMic payload
        attempts := 0
        status := .ready
        retransmitAtMs := none
        rule := hrule
        nonempty := by omega
        length_le := by omega
        count_eq := rfl
        mic_eq := rfl }
  else .error .unsupportedRule

section

variable (s : FragmentSender)

def finalWindow : UInt8 := UInt8.ofNat ((s.count - 1) / windowSize)

def start : Except FragmentError FragmentSender :=
  if s.status ≠ .ready then .error .invalidState
  else .ok { s with status := .active, attempts := 1 }

def getFragment (index : Nat) : Option Fragment :=
  if index ≥ s.count then none
  else
    let final := index + 1 = s.count
    let start := index * tileSize
    some ⟨s.ruleId, UInt8.ofNat (index / windowSize),
      if final then all1Fcn else 62 - UInt8.ofNat (index % windowSize),
      s.payload.extract start (min (start + tileSize) s.payload.length),
      if final then s.mic else Fragment.zeroMic⟩

def iter : List Fragment := (List.range s.count).filterMap s.getFragment

def assignedBitmap (window : UInt8) : BitVec 64 :=
  (s.iter.filter (·.window = window)).foldl (fun bitmap f => bitmap ||| fragmentBit f) 0

def abortOutput : SenderOutput × FragmentSender :=
  (.abort false, { s with status := .aborted, retransmitAtMs := none })

def handleAck (ack : Ack) : SenderOutput × FragmentSender :=
  if s.status ≠ .active ∨ ack.ruleId ≠ s.ruleId then (.none, s)
  else if ack.complete then
    if ack.window ≠ s.finalWindow then (.none, s)
    else (.success, { s with status := .succeeded, retransmitAtMs := none })
  else if ack.window > s.finalWindow then (.none, s)
  else
    let assigned := s.assignedBitmap ack.window
    if ack.bitmap &&& ~~~assigned &&& bitmapMask ≠ 0 then (.none, s)
    else
      let missing := assigned &&& ~~~ack.bitmap
      if missing = 0 then if ack.window = s.finalWindow then s.abortOutput else (.none, s)
      else if s.attempts ≥ maxAckRequests then s.abortOutput
      else
        let all1Missing := ack.window = s.finalWindow ∧ missing &&& 1 ≠ 0
        (.retransmit ack.window missing 0 (!all1Missing), { s with attempts := s.attempts + 1 })

def handleAckBytes (data : Bytes) :
    Except FragmentError SenderOutput × FragmentSender :=
  if s.status ≠ .active ∨ data.head? ≠ some s.ruleId then (.ok .none, s)
  else
    match (Control.receiverAbort s.ruleId).writeTo 3 with
    | .error error => (.error error, s)
    | .ok abort =>
      if data = abort then (.ok .none, { s with status := .aborted, retransmitAtMs := none })
      else
        match Ack.fromBytes data with
        | .error error => (.error error, s)
        | .ok ack =>
          if ack.complete then (s.handleAck ack).map .ok id
          else if ack.window > s.finalWindow then (.ok .none, s)
          else
            match Ack.fromBytesFor data (some (s.assignedBitmap ack.window)) with
            | .error error => (.error error, s)
            | .ok ack => (s.handleAck ack).map .ok id

def timeout : Except FragmentError SenderOutput × FragmentSender :=
  if s.status ≠ .active then (.error .invalidState, s)
  else if s.attempts ≥ maxAckRequests then s.abortOutput.map .ok id
  else (.ok (.ackRequest false), { s with attempts := s.attempts + 1 })

def fragmentAtPosition (window position : UInt8) : Option Fragment :=
  s.iter.find? fun f => f.window = window &&
    if f.isAll1 then position = 62 else position = 62 - f.fcn

def nextMissing (window : UInt8) (missing : BitVec 64) (position : UInt8) :
    Option (UInt8 × Fragment) :=
  ((List.range windowSize).drop position.toNat).findSome? fun current =>
    if missing &&& (1 <<< (62 - current)) = 0 then none
    else (s.fragmentAtPosition window (UInt8.ofNat current)).map (UInt8.ofNat current, ·)

/-- Write the next selected retransmission or control message to a buffer of the given
capacity. -/
def writeNext (output : SenderOutput) (capacity : Nat) :
    Except FragmentError (Option Bytes × SenderOutput) :=
  let request := (Control.ackRequest s.ruleId s.finalWindow).writeTo capacity
  match output with
  | .none | .success => .ok (none, output)
  | .abort written =>
    if written then .ok (none, output)
    else ((Control.senderAbort s.ruleId).writeTo capacity).map fun data => (some data, .abort true)
  | .ackRequest written =>
    if s.status ≠ .active ∨ written then .ok (none, output)
    else request.map fun data => (some data, .ackRequest true)
  | .retransmit window missing position wanted =>
    if s.status ≠ .active then .ok (none, output)
    else
      match s.nextMissing window missing position with
      | some (current, fragment) => (fragment.writeTo capacity).map fun data =>
        (some data, .retransmit window missing (current + 1) wanted)
      | none =>
        if wanted then request.map fun data =>
          (some data, .retransmit window missing (UInt8.ofNat windowSize) false)
        else .ok (none, output)

end

variable {s s' : FragmentSender} {f : Fragment} {data : Bytes}

theorem count_bounds (s : FragmentSender) : 1 ≤ s.count ∧ s.count ≤ 126 ∧
    (s.count - 1) * tileSize < s.payload.length ∧ s.payload.length ≤ s.count * tileSize := by
  have hnonempty := s.nonempty
  have hlength := s.length_le
  have hcount := s.count_eq
  simp only [tileCount, tileSize, maxPacketSize] at *
  omega

theorem toNat_finalWindow (s : FragmentSender) : s.finalWindow.toNat = (s.count - 1) / windowSize := by
  have := s.count_bounds
  rw [finalWindow, UInt8.toNat_ofNat', Nat.mod_eq_of_lt]
  simp only [windowSize]
  omega

theorem toNat_fcn (h : k < windowSize) : (62 - UInt8.ofNat k).toNat = 62 - k := by
  revert k
  decide +kernel

structure RegularTile (s : FragmentSender) (i : Nat) (f : Fragment) : Prop where
  lt : i + 1 < s.count
  regular : f.isAll1 = false
  window : f.window.toNat = i / windowSize
  fcn : f.fcn.toNat = 62 - i % windowSize
  payload : f.payload = s.payload.extract (i * tileSize) ((i + 1) * tileSize)
  mic : f.mic = Fragment.zeroMic

structure FinalTile (s : FragmentSender) (f : Fragment) : Prop where
  all1 : f.isAll1 = true
  window : f.window = s.finalWindow
  payload : f.payload = s.payload.drop ((s.count - 1) * tileSize)
  mic : f.mic = s.mic

theorem getFragment_cases (h : s.getFragment i = some f) :
    f.ruleId = s.ruleId ∧ (RegularTile s i f ∨ FinalTile s f) := by
  obtain ⟨hpos, hle, hlast, hlength⟩ := s.count_bounds
  simp only [getFragment] at h
  split at h
  · cases h
  cases h
  refine ⟨rfl, ?_⟩
  by_cases hfinal : i + 1 = s.count
  · right
    obtain rfl : i = s.count - 1 := by omega
    refine ⟨by simp [Fragment.isAll1, hfinal], rfl, ?_, if_pos hfinal⟩
    have hend : min ((s.count - 1) * tileSize + tileSize) s.payload.length = s.payload.length := by
      simp only [tileSize] at *
      omega
    simp only [hend, List.extract]
    exact List.take_of_length_le (by rw [List.length_drop])
  · left
    have hfcn := toNat_fcn (Nat.mod_lt i (by decide : 0 < windowSize))
    have hend : min (i * tileSize + tileSize) s.payload.length = (i + 1) * tileSize := by
      simp only [tileSize] at *
      omega
    have hwindow : (UInt8.ofNat (i / windowSize)).toNat = i / windowSize := by
      rw [UInt8.toNat_ofNat', Nat.mod_eq_of_lt]
      simp only [windowSize]
      omega
    refine ⟨by omega, ?_, hwindow, ?_, ?_, if_neg hfinal⟩
    · simp only [Fragment.isAll1, if_neg hfinal, decide_eq_false_iff_not]
      intro heq
      rw [heq] at hfcn
      simp only [all1Fcn] at hfcn
      change 63 = _ at hfcn
      omega
    · simp only [if_neg hfinal]
      exact hfcn
    · simp only [hend]

inductive Emits (s : FragmentSender) (data : Bytes) : Prop
  | fragment {index capacity : Nat} {f : Fragment} (h : s.getFragment index = some f)
      (hwrite : f.writeTo capacity = .ok data)
  | ackRequest {capacity : Nat}
      (hwrite : (Control.ackRequest s.ruleId s.finalWindow).writeTo capacity = .ok data)
  | abort {capacity : Nat} (hwrite : (Control.senderAbort s.ruleId).writeTo capacity = .ok data)

theorem getFragment_of_mem_iter (h : f ∈ s.iter) : ∃ index, s.getFragment index = some f := by
  obtain ⟨index, -, hget⟩ := List.mem_filterMap.mp h
  exact ⟨index, hget⟩

theorem nextMissing_eq_some (h : s.nextMissing window missing position = some (current, f)) :
    ∃ index, s.getFragment index = some f := by
  obtain ⟨index, -, h⟩ := List.exists_of_findSome?_eq_some h
  split at h
  · cases h
  · obtain ⟨_, hfound, heq⟩ := Option.map_eq_some_iff.mp h
    cases heq
    exact getFragment_of_mem_iter (List.mem_of_find?_eq_some hfound)

theorem map_ok {x : Except ε α} (h : x.map g = .ok b) : ∃ a, x = .ok a ∧ g a = b := by
  cases x with
  | error => cases h
  | ok a => exact ⟨a, rfl, Except.ok.inj h⟩

theorem writeNext_emits (h : s.writeNext output capacity = .ok (some data, output')) :
    s.Emits data := by
  simp only [writeNext] at h
  split at h
  · cases h
  · cases h
  · split at h
    · cases h
    · obtain ⟨_, hwrite, heq⟩ := map_ok h
      cases heq
      exact .abort hwrite
  · split at h
    · cases h
    · obtain ⟨_, hwrite, heq⟩ := map_ok h
      cases heq
      exact .ackRequest hwrite
  · split at h
    · cases h
    split at h
    · rename_i hmissing
      obtain ⟨_, hget⟩ := nextMissing_eq_some hmissing
      obtain ⟨_, hwrite, heq⟩ := map_ok h
      cases heq
      exact .fragment hget hwrite
    · split at h
      · obtain ⟨_, hwrite, heq⟩ := map_ok h
        cases heq
        exact .ackRequest hwrite
      · cases h

structure SameSession (s s' : FragmentSender) : Prop where
  payload : s'.payload = s.payload
  ruleId : s'.ruleId = s.ruleId

section

variable (h : SameSession s s')

include h

theorem SameSession.symm : SameSession s' s :=
  ⟨h.payload.symm, h.ruleId.symm⟩

theorem SameSession.trans (h' : SameSession s' s'') : SameSession s s'' :=
  ⟨h'.payload.trans h.payload, h'.ruleId.trans h.ruleId⟩

theorem SameSession.count : s'.count = s.count := by
  rw [s'.count_eq, s.count_eq, h.payload]

theorem SameSession.emits (hemits : s.Emits data) : s'.Emits data := by
  have hwindow : s'.finalWindow = s.finalWindow := by rw [finalWindow, finalWindow, h.count]
  cases hemits with
  | @fragment index _ _ hget hwrite =>
    refine @Emits.fragment _ _ index _ _ ?_ hwrite
    rw [← hget, getFragment, getFragment, h.count, h.payload, h.ruleId, s'.mic_eq, s.mic_eq,
      h.payload]
  | ackRequest hwrite => exact .ackRequest (by rw [h.ruleId, hwindow]; exact hwrite)
  | abort hwrite => exact .abort (by rw [h.ruleId]; exact hwrite)

end

section

variable (s : FragmentSender)

theorem handleAck_session (ack : Ack) : SameSession s (s.handleAck ack).2 ∧
      ((s.handleAck ack).2.status = .succeeded → s.status = .succeeded ∨ ack.complete = true) := by
  simp only [handleAck, abortOutput]
  repeat' split
  all_goals exact ⟨⟨rfl, rfl⟩, by simp_all⟩

theorem handleAckBytes_session : SameSession s (s.handleAckBytes data).2 ∧
      ((s.handleAckBytes data).2.status = .succeeded →
        s.status = .succeeded ∨ ∃ ack, Ack.fromBytes data = .ok ack ∧ ack.complete = true) := by
  simp only [handleAckBytes]
  split
  · exact ⟨⟨rfl, rfl⟩, .inl⟩
  split
  · exact ⟨⟨rfl, rfl⟩, .inl⟩
  split
  · exact ⟨⟨rfl, rfl⟩, by simp⟩
  split
  · exact ⟨⟨rfl, rfl⟩, .inl⟩
  rename_i ack hack
  split
  · rename_i hcomplete
    exact ⟨(s.handleAck_session ack).1, fun _ => .inr ⟨ack, hack, hcomplete⟩⟩
  rename_i hincomplete
  split
  · exact ⟨⟨rfl, rfl⟩, .inl⟩
  split
  · exact ⟨⟨rfl, rfl⟩, .inl⟩
  rename_i ack' hack'
  obtain ⟨hsame, hsucceeded⟩ := s.handleAck_session ack'
  refine ⟨hsame, fun h => (hsucceeded h).imp_right fun hcomplete => absurd ?_ hincomplete⟩
  -- both readings go by the same C bit
  rw [(Ack.fromBytesFor_complete hack).1, ← (Ack.fromBytesFor_complete hack').1]
  exact hcomplete

theorem timeout_session :
    SameSession s s.timeout.2 ∧ (s.timeout.2.status = .succeeded → s.status = .succeeded) := by
  simp only [timeout, abortOutput]
  repeat' split
  all_goals exact ⟨⟨rfl, rfl⟩, by simp⟩

end

theorem start_session (h : s.start = .ok s') : SameSession s s' ∧ s'.status ≠ .succeeded := by
  simp only [start] at h
  split at h
  · cases h
  · cases h
    exact ⟨⟨rfl, rfl⟩, by simp⟩

end FragmentSender

end Lichen.Schc
