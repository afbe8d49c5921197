import Lichen.Gateway.Slip

namespace Lichen.Gateway

open Lichen.Lib List

inductive SlipCall where
  | queueSend (packet : Bytes)
  | tryGetTx (out : Bytes)

inductive SlipAnswer where
  | sent (result : Except SlipError Unit)
  | got (result : Except SlipError (Option Nat)) (out : Bytes)

def SlipAnswer.accepted : SlipCall → SlipAnswer → List Bytes
  | .queueSend packet, .sent (.ok _) => [packet]
  | _, _ => []

def SlipAnswer.frames : SlipAnswer → List Bytes
  | got (.ok (some n)) out => [out.take n]
  | _ => []

def SlipAnswer.Refused : SlipAnswer → Prop
  | sent (.error _) => True
  | got (.error _) _ => True
  | _ => False

namespace SlipFramer

variable {framer framer' : SlipFramer} {packet out : Bytes}

def answer (framer : SlipFramer) : SlipCall → SlipAnswer × SlipFramer
  | .queueSend packet => (.sent (framer.queueSend packet).1, (framer.queueSend packet).2)
  | .tryGetTx out =>
    (.got (framer.tryGetTx out).1 (framer.tryGetTx out).2.1, (framer.tryGetTx out).2.2)

def pending (framer : SlipFramer) : List Bytes := contents framer.txBuffer framer.txPackets

def Full (framer : SlipFramer) : Prop :=
  framer.txTail = framer.txHead ∧ ∃ region ∈ framer.txPackets, 0 < region.2

/-- The packet has bytes and is small enough for one of the two places that are tried when the tail
is not in front of the head. -/
def Fits (framer : SlipFramer) (packet : Bytes) : Prop :=
  packet ≠ [] ∧ framer.txPackets.length < txQueueCapacity ∧
    (packet.length ≤ txBufferSize - framer.txTail ∨ packet.length ≤ framer.txHead)

/-- The packets stand one behind the other from the head to the tail, or from the head upwards and
then from the start of the buffer to the tail. -/
inductive Laid (framer : SlipFramer) : Prop
  | flat (h : Tiles framer.txHead framer.txPackets framer.txTail)
  | wrapped (upper lower : List (Nat × Nat)) (stop : Nat)
      (hpackets : framer.txPackets = upper ++ lower) (hne : upper ≠ [])
      (hupper : Tiles framer.txHead upper stop) (hlower : Tiles 0 lower framer.txTail)
      (hpos : 0 < framer.txTail) (hle : framer.txTail ≤ framer.txHead)

theorem laid_new : Laid new := .flat rfl

theorem pending_store (h : offset + packet.length ≤ txBufferSize)
    (hbeside : ∀ region ∈ framer.txPackets,
      region.1 + region.2 ≤ offset ∨ offset + packet.length ≤ region.1) :
    (framer.store offset packet h).pending = framer.pending ++ [packet] :=
  contents_overwrite_snoc hbeside (framer.length_txBuffer ▸ h)

section Place

/-- The packet was put behind the waiting ones, and the ring is still in order. -/
def Stored (framer : SlipFramer) (packet : Bytes) (framer' : SlipFramer) : Prop :=
  framer'.Laid ∧ framer'.pending = framer.pending ++ [packet]

section

variable (hflat : Tiles framer.txHead framer.txPackets framer.txTail)

include hflat

theorem stored_behind (h : framer.txTail + packet.length ≤ txBufferSize) :
    framer.Stored packet (framer.store framer.txTail packet h) :=
  ⟨.flat (hflat.snoc _), pending_store h fun _ hregion => .inl (hflat.bounds hregion).2⟩

theorem stored_at_start (hne : framer.txPackets ≠ []) (hpos : 0 < packet.length)
    (hle : packet.length ≤ framer.txHead) (h : 0 + packet.length ≤ txBufferSize) :
    framer.Stored packet (framer.store 0 packet h) := by
  have htail : (framer.store 0 packet h).txTail = packet.length := Nat.zero_add _
  constructor
  · exact .wrapped _ _ _ rfl hne hflat ⟨rfl, rfl⟩ (htail ▸ hpos) (htail ▸ hle)
  · apply pending_store
    intro region hregion
    have hbounds := hflat.bounds hregion
    exact .inr (by omega)

end

theorem stored_between (hpackets : framer.txPackets = upper ++ lower) (hne : upper ≠ [])
    (hupper : Tiles framer.txHead upper stop) (hlower : Tiles 0 lower framer.txTail)
    (hpos : 0 < framer.txTail) (hle : framer.txTail + packet.length ≤ framer.txHead)
    (h : framer.txTail + packet.length ≤ txBufferSize) :
    framer.Stored packet (framer.store framer.txTail packet h) := by
  constructor
  · refine .wrapped upper (lower ++ [(framer.txTail, packet.length)]) stop ?_ hne hupper
      (hlower.snoc _) (hpos.trans_le (Nat.le_add_right _ _)) hle
    rw [← append_assoc, ← hpackets]
    rfl
  · apply pending_store
    intro region hregion
    rw [hpackets] at hregion
    cases mem_append.mp hregion with
    | inl hmem => exact .inr (hle.trans (hupper.bounds hmem).1)
    | inr hmem => exact .inl (hlower.bounds hmem).2

theorem Laid.place (hlaid : framer.Laid)
    (hrewound : framer.txPackets = [] → framer.txHead = 0) (hclear : ¬(framer.Full ∧ packet ≠ [] ∧
      (packet.length ≤ txBufferSize - framer.txTail ∨ packet.length ≤ framer.txHead))) :
    match framer.place packet with
    | (.ok _, framer') => framer.Stored packet framer'
    | (.error _, framer') => framer' = framer := by
  rw [SlipFramer.place]
  cases hlaid with
  | flat h =>
    rw [if_pos h.le]
    by_cases hend : packet.length ≤ txBufferSize - framer.txTail
    · rw [dif_pos hend]
      exact stored_behind h _
    rw [dif_neg hend]
    by_cases hstart : packet.length ≤ framer.txHead
    · rw [dif_pos hstart]
      refine stored_at_start h ?_ (by omega) hstart _
      intro hempty
      have hzero := hrewound hempty
      omega
    · rw [dif_neg hstart]
  | wrapped upper lower stop hpackets hne hupper hlower hpos hle =>
    by_cases hlt : framer.txTail < framer.txHead
    · rw [if_neg (by omega)]
      by_cases hspace : packet.length ≤ framer.txHead - framer.txTail
      · rw [dif_pos hspace]
        exact stored_between hpackets hne hupper hlower hpos (by omega) _
      · rw [dif_neg hspace]
    · have htail : framer.txTail = framer.txHead := by omega
      have hfull : framer.Full := by
        obtain ⟨region, hregion, hdata⟩ := hlower.exists_pos hpos
        exact ⟨htail, region, hpackets ▸ mem_append_right _ hregion, hdata⟩
      rw [if_pos (by omega)]
      by_cases hroom : packet.length ≤ txBufferSize - framer.txTail ∨ packet.length ≤ framer.txHead
      · have hempty : packet = [] := by
          by_contra hpacket
          exact hclear ⟨hfull, hpacket, hroom⟩
        subst hempty
        have hnone : ([] : Bytes).length ≤ txBufferSize - framer.txTail := Nat.zero_le _
        rw [dif_pos hnone]
        exact stored_between hpackets hne hupper hlower hpos (by rw [length_nil]; exact hle) _
      · rw [dif_neg (fun h => hroom (.inl h)), dif_neg (fun h => hroom (.inr h))]

@[simp] theorem txPackets_rewind : framer.rewind.txPackets = framer.txPackets := by
  rw [rewind]
  split <;> rfl

@[simp] theorem pending_rewind : framer.rewind.pending = framer.pending := by
  rw [rewind]
  split <;> rfl

theorem rewind_of_ne (h : framer.txPackets ≠ []) : framer.rewind = framer := if_neg h

theorem txHead_rewind (h : framer.txPackets = []) : framer.rewind.txHead = 0 := by
  rw [rewind, if_pos h]

theorem Laid.rewind (h : framer.Laid) : framer.rewind.Laid := by
  by_cases hempty : framer.txPackets = []
  · rw [SlipFramer.rewind, if_pos hempty]
    refine .flat ?_
    dsimp only
    rw [hempty]
    rfl
  · rw [rewind_of_ne hempty]
    exact h

theorem Laid.queueSend (hlaid : framer.Laid) (hclear : ¬(framer.Full ∧ framer.Fits packet)) :
    match framer.queueSend packet with
    | (.ok _, framer') => framer.Stored packet framer'
    | (.error _, framer') => framer'.Laid ∧ framer'.pending = framer.pending := by
  rw [SlipFramer.queueSend]
  by_cases hcapacity : txQueueCapacity ≤ framer.txPackets.length
  · rw [if_pos hcapacity]
    exact ⟨hlaid, rfl⟩
  rw [if_neg hcapacity]
  have hplace := hlaid.rewind.place (fun h => txHead_rewind (by simpa using h))
    (by
      rintro ⟨hfull, hpacket, hroom⟩
      obtain ⟨_, hregion, -⟩ := hfull.2
      have hne : framer.txPackets ≠ [] := ne_nil_of_mem (txPackets_rewind ▸ hregion)
      rw [rewind_of_ne hne] at hfull hroom
      exact hclear ⟨hfull, hpacket, by omega, hroom⟩)
  revert hplace
  rcases framer.rewind.place packet with ⟨_ | _, framer'⟩
  · rintro rfl
    exact ⟨hlaid.rewind, pending_rewind⟩
  · rintro ⟨hlaid', hpending⟩
    exact ⟨hlaid', by rw [hpending, pending_rewind]⟩

end Place

section Get

variable {region : Nat × Nat} {regions : List (Nat × Nat)}

section

variable (h : framer.txPackets = region :: regions)

include h

theorem txPackets_popFront : framer.popFront.txPackets = regions := congrArg List.tail h

theorem txHead_popFront :
    framer.popFront.txHead = (regions.head?.map Prod.fst).getD framer.txTail := by
  rw [← txPackets_popFront h]
  rfl

theorem pending_eq_cons : framer.pending =
      framer.txBuffer.extract region.1 (region.1 + region.2) :: framer.popFront.pending := by
  rw [pending, pending, txPackets_popFront h, h]
  rfl

end

theorem Laid.popFront (hlaid : framer.Laid) (h : framer.txPackets = region :: regions) :
    framer.popFront.Laid := by
  have hpackets := txPackets_popFront h
  have hhead := txHead_popFront h
  cases hlaid with
  | flat hflat =>
    rw [h] at hflat
    refine .flat ?_
    rw [hpackets, hhead, hflat.2.start]
    exact hflat.2
  | wrapped upper lower stop hsplit hne hupper hlower hpos hle =>
    cases upper with
    | nil => exact (hne rfl).elim
    | cons first upper =>
      rw [cons_append] at hsplit
      obtain ⟨rfl, rfl⟩ := List.cons.inj (h.symm.trans hsplit)
      cases upper with
      | nil =>
        refine .flat ?_
        rw [hpackets, hhead, nil_append, hlower.start]
        exact hlower
      | cons second upper =>
        have hnext : framer.popFront.txHead = framer.txHead + region.2 := hhead.trans hupper.2.1
        refine .wrapped (second :: upper) lower stop hpackets (cons_ne_nil _ _) ?_ hlower hpos ?_
        · rw [hnext]
          exact hupper.2
        · rw [hnext]
          exact hle.trans (Nat.le_add_right _ _)

theorem Laid.tryGetTx (hlaid : framer.Laid) (out : Bytes) :
    match framer.tryGetTx out with
    | (.ok (some n), out', framer') =>
      framer'.Laid ∧ out'.take n :: framer'.pending.map slipEncode = framer.pending.map slipEncode
    | (_, out', framer') => out' = out ∧ framer' = framer := by
  rw [SlipFramer.tryGetTx]
  cases h : framer.txPackets with
  | nil => exact ⟨rfl, rfl⟩
  | cons region regions =>
    dsimp only [List.head?_cons]
    by_cases hsmall : out.length < 2 + region.2 * 2
    · rw [if_pos hsmall]
      exact ⟨rfl, rfl⟩
    · rw [if_neg hsmall]
      have hrange := framer.txPackets_le region (h ▸ mem_cons_self)
      have hlength : (framer.txBuffer.extract region.1 (region.1 + region.2)).length = region.2 := by
        rw [length_extract_of_le (framer.length_txBuffer ▸ hrange), Nat.add_sub_cancel_left]
      refine ⟨hlaid.popFront h, ?_⟩
      rw [take_writeFrame (by omega), pending_eq_cons h, map_cons]

end Get

section Answer

/-- Over one call nothing is lost, repeated or changed between the packets that waited or were
accepted and the frames that are brought or still to be brought. -/
theorem Laid.answer (hlaid : framer.Laid) (call : SlipCall)
    (hclear : ∀ packet, call = .queueSend packet → ¬(framer.Full ∧ framer.Fits packet)) :
    (framer.answer call).2.Laid ∧
      (framer.answer call).1.frames ++ (framer.answer call).2.pending.map slipEncode =
        (framer.pending ++ (framer.answer call).1.accepted call).map slipEncode := by
  cases call with
  | queueSend packet =>
    have hsend := hlaid.queueSend (hclear packet rfl)
    rw [SlipFramer.answer]
    revert hsend
    rcases framer.queueSend packet with ⟨_ | _, framer'⟩
    · rintro ⟨hlaid', hpending⟩
      refine ⟨hlaid', ?_⟩
      simp only [SlipAnswer.frames, SlipAnswer.accepted, hpending, nil_append, append_nil]
    · rintro ⟨hlaid', hpending⟩
      refine ⟨hlaid', ?_⟩
      simp only [SlipAnswer.frames, SlipAnswer.accepted, hpending, nil_append]
  | tryGetTx out =>
    have hget := hlaid.tryGetTx out
    rw [SlipFramer.answer]
    revert hget
    rcases framer.tryGetTx out with ⟨_ | _ | n, out', framer'⟩
    · rintro ⟨-, rfl⟩
      refine ⟨hlaid, ?_⟩
      simp only [SlipAnswer.frames, SlipAnswer.accepted, nil_append, append_nil]
    · rintro ⟨-, rfl⟩
      refine ⟨hlaid, ?_⟩
      simp only [SlipAnswer.frames, SlipAnswer.accepted, nil_append, append_nil]
    · rintro ⟨hlaid', hpending⟩
      refine ⟨hlaid', ?_⟩
      simpa only [SlipAnswer.frames, SlipAnswer.accepted, append_nil,
        singleton_append] using hpending

/-- The call can be left out: the caller's buffer is as it was, and every later call is answered as
if this one had not been made. -/
def LeavesAlone (framer : SlipFramer) (call : SlipCall) : Prop :=
  (∀ out, call = .tryGetTx out → (framer.tryGetTx out).2.1 = out) ∧
    ∀ calls, trace SlipFramer.answer (framer.answer call).2 calls =
      trace SlipFramer.answer framer calls

section

variable (h : framer.rewind = framer'.rewind)

include h

theorem txPackets_eq_of_rewind : framer.txPackets = framer'.txPackets := by
  rw [← txPackets_rewind, h, txPackets_rewind]

theorem answer_eq_of_rewind : (framer.answer call).1 = (framer'.answer call).1 ∧
      (framer.answer call).2.rewind = (framer'.answer call).2.rewind := by
  have hpackets := txPackets_eq_of_rewind h
  by_cases hempty : framer.txPackets = []
  · have hempty' := hpackets ▸ hempty
    cases call with
    | queueSend =>
      simp only [SlipFramer.answer, SlipFramer.queueSend, hempty, hempty', h]
      split
      · exact ⟨rfl, h⟩
      · exact ⟨rfl, rfl⟩
    | tryGetTx =>
      simp only [SlipFramer.answer, SlipFramer.tryGetTx, hempty, hempty', List.head?_nil]
      exact ⟨trivial, h⟩
  · rw [rewind_of_ne hempty, rewind_of_ne (hpackets ▸ hempty)] at h
    rw [h]
    exact ⟨rfl, rfl⟩

theorem trace_eq_of_rewind :
    trace SlipFramer.answer framer calls = trace SlipFramer.answer framer' calls :=
  trace_eq_of_sim (R := fun framer framer' => framer.rewind = framer'.rewind) (P := fun _ => True)
    (fun _ _ _ h _ => answer_eq_of_rewind h) h calls fun _ _ => trivial

end

theorem rewind_rewind : framer.rewind.rewind = framer.rewind := by
  by_cases hempty : framer.txPackets = []
  · simp only [rewind, hempty, if_true]
  · rw [rewind_of_ne hempty, rewind_of_ne hempty]

theorem place_refused (h : (framer.place packet).1 = .error e) :
    (framer.place packet).2 = framer := by
  revert h
  rw [place]
  split_ifs <;> simp

theorem tryGetTx_refused (h : (framer.tryGetTx out).1 = .error e) :
    (framer.tryGetTx out).2 = (out, framer) := by
  revert h
  rw [SlipFramer.tryGetTx]
  cases framer.txPackets.head? with
  | none => simp
  | some =>
    dsimp only
    split_ifs <;> simp

theorem leavesAlone_of_refused (framer : SlipFramer) (call : SlipCall)
    (h : (framer.answer call).1.Refused) : framer.LeavesAlone call := by
  cases call with
  | queueSend packet =>
    refine ⟨nofun, fun calls => trace_eq_of_rewind ?_⟩
    rw [SlipFramer.answer, SlipFramer.queueSend] at h ⊢
    by_cases hcapacity : txQueueCapacity ≤ framer.txPackets.length
    · rw [if_pos hcapacity]
    · rw [if_neg hcapacity] at h ⊢
      cases hplace : (framer.rewind.place packet).1 with
      | ok =>
        rw [hplace] at h
        exact h.elim
      | error => rw [place_refused hplace, rewind_rewind]
  | tryGetTx out =>
    rw [SlipFramer.answer] at h
    cases hget : (framer.tryGetTx out).1 with
    | ok =>
      rw [hget] at h
      exact h.elim
    | error =>
      have hsame := tryGetTx_refused hget
      refine ⟨?_, fun calls => ?_⟩
      · rintro _ ⟨⟩
        rw [hsame]
      · rw [SlipFramer.answer, hsame]

end Answer

end SlipFramer

/-- A framer with the packets that it accepted and the frames that it returned so far. -/
structure SlipLine where
  framer : SlipFramer
  accepted : List Bytes
  frames : List Bytes

namespace SlipLine

variable {line : SlipLine}

def new : SlipLine := ⟨.new, [], []⟩

def call (line : SlipLine) (call : SlipCall) : SlipLine where
  framer := (line.framer.answer call).2
  accepted := line.accepted ++ (line.framer.answer call).1.accepted call
  frames := line.frames ++ (line.framer.answer call).1.frames

/-- The frames so far and those of the waiting packets are the encodings of the accepted packets,
each once and in order. -/
def InOrder (line : SlipLine) : Prop :=
  line.frames ++ line.framer.pending.map slipEncode = line.accepted.map slipEncode

def Clear (line : SlipLine) : SlipCall → Prop
  | .queueSend packet => ¬(line.framer.Full ∧ line.framer.Fits packet)
  | .tryGetTx _ => True

instance : ∀ (line : SlipLine) (call : SlipCall), Decidable (line.Clear call)
  | line, .queueSend packet => inferInstanceAs (Decidable
      (¬((line.framer.txTail = line.framer.txHead ∧
          ∃ region ∈ line.framer.txPackets, 0 < region.2) ∧
        packet ≠ [] ∧ line.framer.txPackets.length < txQueueCapacity ∧
        (packet.length ≤ txBufferSize - line.framer.txTail ∨
          packet.length ≤ line.framer.txHead))))
  | _, .tryGetTx _ => isTrue trivial

theorem call_step (hlaid : line.framer.Laid) (horder : line.InOrder) (call : SlipCall)
    (hclear : line.Clear call) : (line.call call).framer.Laid ∧ (line.call call).InOrder := by
  obtain ⟨hlaid', hanswer⟩ := hlaid.answer call (by
    rintro _ rfl
    exact hclear)
  refine ⟨hlaid', ?_⟩
  calc
    line.frames ++ (line.framer.answer call).1.frames ++
        (line.framer.answer call).2.pending.map slipEncode =
      line.frames ++
        (line.framer.pending ++ (line.framer.answer call).1.accepted call).map slipEncode := by
      rw [append_assoc, hanswer]
    _ = (line.accepted ++ (line.framer.answer call).1.accepted call).map slipEncode := by
      rw [map_append, map_append, ← append_assoc, horder]

theorem frames_in_order (calls : List SlipCall) (h : Steps Clear call new calls) :
    (run call new calls).InOrder ∧
      ∀ later, ((run call new calls).framer.answer later).1.Refused →
        (run call new calls).framer.LeavesAlone later := by
  have hrun : (run call new calls).framer.Laid ∧ (run call new calls).InOrder :=
    run_invariant_of_steps (I := fun line => line.framer.Laid ∧ line.InOrder)
      (fun line later hline hclear => call_step hline.1 hline.2 later hclear)
      ⟨SlipFramer.laid_new, rfl⟩ calls h
  exact ⟨hrun.2, SlipFramer.leavesAlone_of_refused _⟩

theorem frames_in_order_of_wrap :
    (run call new [.queueSend (List.replicate 3000 1), .queueSend [0xC0, 2],
      .tryGetTx (List.replicate 6002 0), .queueSend (List.replicate 2000 3)]).InOrder :=
  (frames_in_order _ (by decide +kernel)).1

-- The fifth packet is written over the second, whose turn it is.
theorem frames_not_in_order :
    ¬(run call new [.queueSend [1], .queueSend [2], .queueSend (List.replicate 4094 0),
      .tryGetTx [0, 0, 0, 0], .queueSend [3], .queueSend [4], .tryGetTx [0, 0, 0, 0]]).InOrder := by
  rw [InOrder]
  decide +kernel

end SlipLine

end Lichen.Gateway
