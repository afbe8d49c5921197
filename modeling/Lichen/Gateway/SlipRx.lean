import Lichen.Gateway.SlipRing
import Lichen.Lib.Framing

namespace Lichen.Gateway

open Lichen.Lib List

inductive SlipDecodeResult where
  | none
  | byte (b : UInt8)
  | end

def slipDecodeByte (byte : UInt8) (inEscape : Bool) : SlipDecodeResult × Bool :=
  if byte = fend then (.end, false)
  else if byte = fesc then (.none, true)
  else if byte = tfend ∧ inEscape then (.byte fend, false)
  else if byte = tfesc ∧ inEscape then (.byte fesc, false)
  else (.byte byte, false)

def rxBufferMax : Nat := 4096

structure SlipReceiver where
  rxBuffer : Bytes
  rxInEscape : Bool

namespace SlipReceiver

def new : SlipReceiver := ⟨[], false⟩

def processByte (framer : SlipReceiver) (byte : UInt8) : Option Bytes × SlipReceiver :=
  match slipDecodeByte byte framer.rxInEscape with
  | (.end, newEscape) =>
    if framer.rxBuffer = [] then (none, ⟨framer.rxBuffer, newEscape⟩)
    else (some framer.rxBuffer, ⟨[], newEscape⟩)
  | (.byte b, newEscape) =>
    if rxBufferMax ≤ framer.rxBuffer.length then (none, ⟨[], false⟩)
    else (none, ⟨framer.rxBuffer ++ [b], newEscape⟩)
  | (.none, newEscape) => (none, ⟨framer.rxBuffer, newEscape⟩)

def feed (framer : SlipReceiver) : Bytes → List Bytes × SlipReceiver
  | [] => ([], framer)
  | byte :: data =>
    let processed := framer.processByte byte
    let rest := processed.2.feed data
    (processed.1.toList ++ rest.1, rest.2)

def feeds (framer : SlipReceiver) : List Bytes → List Bytes × SlipReceiver
  | [] => ([], framer)
  | data :: cuts =>
    let fed := framer.feed data
    let rest := fed.2.feeds cuts
    (fed.1 ++ rest.1, rest.2)

theorem feed_append (framer : SlipReceiver) (data stream : Bytes) : framer.feed (data ++ stream) =
      ((framer.feed data).1 ++ ((framer.feed data).2.feed stream).1,
        ((framer.feed data).2.feed stream).2) := by
  induction data generalizing framer with
  | nil => rfl
  | cons byte data ih =>
    rw [cons_append, feed, ih, feed, append_assoc]

theorem feeds_eq_feed_flatten (framer : SlipReceiver) (cuts : List Bytes) :
    framer.feeds cuts = framer.feed cuts.flatten := by
  induction cuts generalizing framer with
  | nil => rfl
  | cons data cuts ih => rw [feeds, ih, flatten_cons, feed_append]

end SlipReceiver

def unescapeByte (byte : UInt8) : UInt8 :=
  if byte = tfend then fend else if byte = tfesc then fesc else byte

def unescapeFrom (inEscape : Bool) : Bytes → Bytes
  | [] => []
  | byte :: frame =>
    if byte = fesc then unescapeFrom true frame
    else (if inEscape then unescapeByte byte else byte) :: unescapeFrom false frame

def unescape (frame : Bytes) : Bytes := unescapeFrom false frame

/-- The packets of a stream: the contents of its frames, those too long for the buffer and the
empty ones left out. -/
def wholeFrames (stream : Bytes) : List Bytes :=
  ((frames fend stream).map unescape).filter
    fun content => content ≠ [] ∧ content.length ≤ rxBufferMax

section Receive

variable {content : Bytes} {byte : UInt8} {inEscape : Bool}

def received (content : Bytes) : Option Bytes :=
  if cleared rxBufferMax content = [] then none else some (cleared rxBufferMax content)

theorem slipDecodeByte_of_content (hend : byte ≠ fend) (hesc : byte ≠ fesc) :
    slipDecodeByte byte inEscape =
      (.byte (if inEscape then unescapeByte byte else byte), false) := by
  rw [slipDecodeByte, if_neg hend, if_neg hesc]
  cases inEscape with
  | false => simp
  | true =>
    simp only [and_true, if_true, unescapeByte]
    split_ifs <;> rfl

theorem processByte_fend : SlipReceiver.processByte ⟨cleared rxBufferMax content, inEscape⟩ fend =
      (received content, ⟨[], false⟩) := by
  simp only [SlipReceiver.processByte, slipDecodeByte, if_true, received]
  split_ifs with h
  · rw [h]
  · rfl

theorem processByte_fesc :
    SlipReceiver.processByte ⟨content, inEscape⟩ fesc = (none, ⟨content, true⟩) := rfl

theorem processByte_of_content (hend : byte ≠ fend) (hesc : byte ≠ fesc) :
    SlipReceiver.processByte ⟨cleared rxBufferMax content, inEscape⟩ byte =
      (none, ⟨cleared rxBufferMax
        (content ++ [if inEscape then unescapeByte byte else byte]), false⟩) := by
  simp only [SlipReceiver.processByte, slipDecodeByte_of_content hend hesc, cleared_concat]
  split_ifs <;> rfl

def openContents (content : Bytes) (inEscape : Bool) : List Bytes → List Bytes
  | [] => []
  | frame :: rest => (content ++ unescapeFrom inEscape frame) :: rest.map unescape

theorem openContents_new (rest : List Bytes) : openContents [] false rest = rest.map unescape := by
  cases rest <;> rfl

theorem feed_open (content : Bytes) (inEscape : Bool) (stream : Bytes) :
    (SlipReceiver.feed ⟨cleared rxBufferMax content, inEscape⟩ stream).1 =
      (openContents content inEscape (frames fend stream)).filterMap received := by
  induction stream generalizing content inEscape with
  | nil => rfl
  | cons byte stream ih =>
    rw [SlipReceiver.feed]
    by_cases hend : byte = fend
    · have hnew := ih [] false
      rw [cleared_of_le (Nat.zero_le _), openContents_new] at hnew
      rw [hend, processByte_fend, hnew, frames_cons_self, openContents, filterMap_cons,
        unescapeFrom, append_nil]
      cases received content <;> rfl
    by_cases hesc : byte = fesc
    · rw [hesc, processByte_fesc, frames_cons_of_ne (hesc ▸ hend), ih]
      cases frames fend stream <;> rfl
    · rw [processByte_of_content hend hesc, frames_cons_of_ne hend, ih]
      cases frames fend stream with
      | nil => rfl
      | cons =>
        simp only [openContents, modifyHead_cons, unescapeFrom, if_neg hesc,
          append_assoc, singleton_append, Option.toList_none, nil_append]

theorem feed_new (stream : Bytes) : (SlipReceiver.new.feed stream).1 =
      ((frames fend stream).map unescape).filterMap received := by
  have h := feed_open [] false stream
  rwa [cleared_of_le (Nat.zero_le _), openContents_new] at h

theorem received_of_le (hne : content ≠ []) (hle : content.length ≤ rxBufferMax) :
    received content = some content := by
  rw [received, cleared_of_le hle, if_neg hne]

theorem received_eq_whole_iff :
    (received content = if content ≠ [] ∧ content.length ≤ rxBufferMax then some content else none) ↔
      content.length ≤ rxBufferMax ∨ rxBufferMax + 1 ∣ content.length := by
  by_cases hle : content.length ≤ rxBufferMax
  · by_cases hne : content = []
    · simp [received, hne, cleared]
    · simp [received_of_le hne hle, hne, hle]
  · simp only [hle, and_false, if_false, false_or, received, ite_eq_left_iff, reduceCtorEq,
      imp_false, not_not, cleared_eq_nil_iff]

theorem feed_new_eq_wholeFrames_iff : (SlipReceiver.new.feed stream).1 = wholeFrames stream ↔
      ∀ frame ∈ frames fend stream,
        (unescape frame).length ≤ rxBufferMax ∨ rxBufferMax + 1 ∣ (unescape frame).length := by
  rw [feed_new, wholeFrames, ← filterMap_eq_filter, filterMap_eq_filterMap_iff_of_imp,
    forall_mem_map]
  · refine forall₂_congr fun frame _ => ?_
    rw [← received_eq_whole_iff]
    simp only [Option.guard, decide_eq_true_eq]
  · intro content packet h
    simp only [Option.guard, decide_eq_true_eq, Option.ite_none_right_eq_some] at h
    obtain ⟨⟨hne, hle⟩, hsame⟩ := h
    exact (received_of_le hne hle).trans hsame

end Receive

section Encoded

theorem fend_notMem_slipEscape : fend ∉ slipEscape byte := by
  rw [slipEscape]
  split_ifs with hend hesc
  · decide
  · decide
  · exact fun h => hend (mem_singleton.mp h).symm

theorem unescapeFrom_slipEscape :
    unescapeFrom false (slipEscape byte ++ frame) = byte :: unescapeFrom false frame := by
  rw [slipEscape]
  split_ifs with hend hesc
  · rw [hend]
    rfl
  · rw [hesc]
    rfl
  · rw [singleton_append, unescapeFrom, if_neg hesc]
    rfl

theorem unescape_slipEscape (packet : Bytes) : unescape (packet.flatMap slipEscape) = packet := by
  induction packet with
  | nil => rfl
  | cons byte packet ih =>
    rw [flatMap_cons, unescape, unescapeFrom_slipEscape]
    exact congrArg (byte :: ·) ih

theorem frames_slipEncode (packet stream : Bytes) : frames fend (slipEncode packet ++ stream) =
      [] :: packet.flatMap slipEscape :: frames fend stream := by
  have hnot : fend ∉ packet.flatMap slipEscape := by
    rw [mem_flatMap]
    rintro ⟨_, -, h⟩
    exact fend_notMem_slipEscape h
  rw [slipEncode, cons_append, frames_cons_self, append_assoc, singleton_append,
    frames_append_of_notMem hnot]

theorem feed_slipEncode (packets : List Bytes) :
    (SlipReceiver.new.feed (packets.flatMap slipEncode)).1 = packets.filterMap received := by
  rw [feed_new]
  induction packets with
  | nil => rfl
  | cons packet packets ih =>
    rw [flatMap_cons, frames_slipEncode, map_cons, map_cons, unescape_slipEscape,
      filterMap_cons_none (show received (unescape []) = none from rfl), filterMap_cons,
      filterMap_cons, ih]

theorem filterMap_received {packets : List Bytes}
    (h : ∀ packet ∈ packets, packet ≠ [] ∧ packet.length ≤ rxBufferMax) :
    packets.filterMap received = packets := by
  rw [filterMap_congr (g := some), filterMap_some]
  exact fun packet hpacket => received_of_le (h packet hpacket).1 (h packet hpacket).2

theorem feeds_eq_wholeFrames (cuts : List Bytes) :
    (SlipReceiver.new.feeds cuts).1 = (SlipReceiver.new.feed cuts.flatten).1 ∧
      ((SlipReceiver.new.feeds cuts).1 = wholeFrames cuts.flatten ↔
        ∀ frame ∈ frames fend cuts.flatten,
          (unescape frame).length ≤ rxBufferMax ∨ rxBufferMax + 1 ∣ (unescape frame).length) ∧
      ∀ packets : List Bytes,
        (∀ packet ∈ packets, packet ≠ [] ∧ packet.length ≤ rxBufferMax) →
        cuts.flatten = packets.flatMap slipEncode →
        (SlipReceiver.new.feeds cuts).1 = packets := by
  rw [SlipReceiver.feeds_eq_feed_flatten]
  refine ⟨rfl, feed_new_eq_wholeFrames_iff, fun packets hpackets hstream => ?_⟩
  rw [hstream, feed_slipEncode, filterMap_received hpackets]

theorem feeds_eq_wholeFrames_of_two_cuts :
    (∀ frame ∈ frames fend [[fend, 1, fesc], [tfend, fend, 2]].flatten,
        (unescape frame).length ≤ rxBufferMax ∨ rxBufferMax + 1 ∣ (unescape frame).length) ∧
      (SlipReceiver.new.feeds [[fend, 1, fesc], [tfend, fend, 2]]).1 = [[1, fend]] :=
  ⟨by decide, ((feeds_eq_wholeFrames [[fend, 1, fesc], [tfend, fend, 2]]).2.1.mpr (by decide)).trans
    (by decide)⟩

/-- A frame two bytes longer than the buffer leaves its last byte as a packet. -/
theorem feed_oversized :
    (SlipReceiver.new.feed (slipEncode (List.replicate 4098 0))).1 = [[0]] ∧
      wholeFrames (slipEncode (List.replicate 4098 0)) = [] := by
  have hrest : cleared rxBufferMax (List.replicate 4098 (0 : UInt8)) = [0] := by
    rw [cleared, length_replicate, drop_replicate]
    rfl
  constructor
  · have h := feed_slipEncode [List.replicate 4098 0]
    rw [flatMap_singleton] at h
    rw [h, filterMap_cons_some (by rw [received, hrest, if_neg (by decide)]),
      filterMap_nil]
  · have h := frames_slipEncode (List.replicate 4098 0) []
    rw [append_nil] at h
    rw [wholeFrames, h, frames_nil, map_cons, map_singleton, unescape_slipEscape,
      filter_eq_nil_iff]
    intro content hcontent
    rw [mem_pair] at hcontent
    obtain rfl | rfl := hcontent
    · decide
    · rw [length_replicate]
      decide

end Encoded

end Lichen.Gateway

namespace Lichen.Gateway.SlipLine

open Lichen.Lib List

theorem slipEncode_injective : Function.Injective slipEncode := by
  intro packet other h
  have hsame := append_cancel_right (cons.inj h).2
  rw [← unescape_slipEscape packet, hsame, unescape_slipEscape]

/-- However the line cuts the bytes, the peer receives the accepted packets once each and in order,
up to those that wait. -/
theorem delivers_accepted (h : Steps Clear call new calls)
    (hcuts : cuts.flatten = (run call new calls).frames.flatten)
    (hwhole : ∀ packet ∈ (run call new calls).accepted, packet ≠ [] ∧ packet.length ≤ rxBufferMax) :
    (SlipReceiver.new.feeds cuts).1 ++ (run call new calls).framer.pending =
      (run call new calls).accepted := by
  obtain ⟨-, horder⟩ := run_invariant_of_steps (I := fun line => line.framer.Laid ∧ line.InOrder)
    (fun line later hline hclear => call_step hline.1 hline.2 later hclear)
    ⟨SlipFramer.laid_new, rfl⟩ calls h
  generalize run call new calls = line at *
  obtain ⟨sent, waiting, haccepted, hsent, hwaiting⟩ := map_eq_append_iff.mp horder.symm
  have hpending : waiting = line.framer.pending := map_injective_iff.mpr slipEncode_injective hwaiting
  have hreceived : sent.filterMap received = sent := filterMap_received fun packet hpacket =>
    hwhole packet (haccepted ▸ mem_append_left waiting hpacket)
  rw [SlipReceiver.feeds_eq_feed_flatten, hcuts, ← hsent, ← flatMap_def, feed_slipEncode, hreceived,
    ← hpending, haccepted]

theorem delivers_accepted_of_two_cuts :
    let calls := [.queueSend [0xC0, 1], .queueSend [2], .tryGetTx (replicate 6 0)]
    (SlipReceiver.new.feeds [[0xC0, 0xDB], [0xDC, 1, 0xC0]]).1 ++
        (run call new calls).framer.pending = [[0xC0, 1], [2]] :=
  (delivers_accepted (by decide +kernel) (by decide +kernel) (by decide +kernel)).trans
    (by decide +kernel)

end Lichen.Gateway.SlipLine
