import Lichen.Coap.OptionGrammar

namespace Lichen.Coap

open Lichen.Lib

variable {overflowChecks : Bool} {data : Bytes}

def tokenLength (data : Bytes) : Nat := (data.getD 0 0 &&& 0x0F).toNat

def optionsAt (data : Bytes) : Nat := minHeaderLen + tokenLength data

structure HeaderOk (data : Bytes) : Prop where
  header : minHeaderLen ≤ data.length
  version : data.getD 0 0 >>> 6 = coapVersion
  token : tokenLength data ≤ maxTokenLen
  fits : optionsAt data ≤ data.length

theorem fromBytes_of_header (overflowChecks : Bool) (h : HeaderOk data) :
    CoapPacket.fromBytes overflowChecks data =
      match findPayloadMarker overflowChecks (data.drop (optionsAt data)) with
      | none => none
      | some (.error e) => some (.error e)
      | some (.ok none) => some (.ok ⟨data, optionsAt data, data.length, data.length⟩)
      | some (.ok (some off)) =>
        if optionsAt data + off + 1 = data.length then some (.error .invalidPayloadMarker)
        else some (.ok ⟨data, optionsAt data, optionsAt data + off, optionsAt data + off + 1⟩) := by
  have htoken : ¬maxTokenLen < (data.getD 0 0 &&& 0x0F).toNat := Nat.not_lt.mpr h.token
  have hfits : ¬data.length < minHeaderLen + (data.getD 0 0 &&& 0x0F).toNat :=
    Nat.not_lt.mpr h.fits
  rw [CoapPacket.fromBytes, if_neg (Nat.not_lt.mpr h.header)]
  rw [if_neg (not_not_intro h.version), if_neg htoken, if_neg hfits]
  rfl

theorem fromBytes_of_not_header (overflowChecks : Bool) (h : ¬HeaderOk data) :
    ∃ e, CoapPacket.fromBytes overflowChecks data = some (.error e) := by
  rw [CoapPacket.fromBytes]
  by_cases hheader : data.length < minHeaderLen
  · rw [if_pos hheader]
    exact ⟨_, rfl⟩
  rw [if_neg hheader]
  by_cases hversion : data.getD 0 0 >>> 6 ≠ coapVersion
  · rw [if_pos hversion]
    exact ⟨_, rfl⟩
  rw [if_neg hversion]
  by_cases htoken : maxTokenLen < (data.getD 0 0 &&& 0x0F).toNat
  · rw [if_pos htoken]
    exact ⟨_, rfl⟩
  rw [if_neg htoken]
  by_cases hfits : data.length < minHeaderLen + (data.getD 0 0 &&& 0x0F).toNat
  · rw [if_pos hfits]
    exact ⟨_, rfl⟩
  · exact absurd ⟨Nat.not_lt.mp hheader, not_not.mp hversion, Nat.not_lt.mp htoken,
      Nat.not_lt.mp hfits⟩ h

/-- What is accepted is a header, a token, options and either nothing more or a payload behind its
marker, and the iterator yields these options under their true numbers. -/
structure Parsed (overflowChecks : Bool) (data : Bytes) (packet : CoapPacket)
    (options : List EncodedOption) : Prop where
  data_eq : packet.data = data
  start : packet.optionsStart = optionsAt data
  tiled : data.extract packet.optionsStart packet.optionsEnd = encoded options
  stop : packet.optionsEnd = data.length ∧ packet.payload = [] ∨
    packet.optionsEnd + 1 < data.length ∧ data.getD packet.optionsEnd 0 = payloadMarker ∧
      packet.payload = data.drop (packet.optionsEnd + 1)
  items : ∃ items : List CoapOption,
    packet.options.collect overflowChecks = some (items.map .ok) ∧
      items.map (fun item => (item.number.toNat, item.value)) = numbered 0 options

/-- Parsing does not panic, rejects option numbers of more than 16 bits, and reads what it accepts
as it is written. -/
structure Exact (overflowChecks : Bool) (data : Bytes) : Prop where
  returns : CoapPacket.fromBytes overflowChecks data ≠ none
  rejects : ∀ options rest, data.drop (optionsAt data) = encoded options ++ rest →
    65535 < totalDelta options →
    ∃ e, CoapPacket.fromBytes overflowChecks data = some (.error e)
  accepts : ∀ packet, CoapPacket.fromBytes overflowChecks data = some (.ok packet) →
    ∃ options, Parsed overflowChecks data packet options

/-- Behind a valid header and options whose numbers have 16 bits comes an option whose delta alone
has more. -/
def ReachesWideDelta (data : Bytes) : Prop :=
  data.getD 0 0 >>> 6 = coapVersion ∧ tokenLength data ≤ maxTokenLen ∧
    ∃ options rest, data.drop (optionsAt data) = encoded options ++ rest ∧
      totalDelta options ≤ 65535 ∧ WideDelta rest

theorem headerOk_of_reaches (h : ReachesWideDelta data) : HeaderOk data := by
  obtain ⟨hversion, htoken, options, rest, hdrop, -, first, hi, lo, tail, hrest, -⟩ := h
  have hfits : optionsAt data < data.length := by
    by_contra hge
    rw [List.drop_eq_nil_of_le (by omega), hrest] at hdrop
    simp at hdrop
  exact ⟨by rw [optionsAt] at hfits; omega, hversion, htoken, hfits.le⟩

theorem fromBytes_panics (h : ReachesWideDelta data) : CoapPacket.fromBytes true data = none := by
  have hheader := headerOk_of_reaches h
  obtain ⟨-, -, options, rest, hdrop, htotal, hwide⟩ := h
  have hspans : Spans (data.drop (optionsAt data)) 0 (0 + (encoded options).length)
      (encoded options) := .of_drop hdrop
  have hrest : (data.drop (optionsAt data)).drop (0 + (encoded options).length) = rest := by
    rw [Nat.zero_add, hdrop, List.drop_left]
  have hscan : findPayloadMarker true (data.drop (optionsAt data)) = none := by
    rw [findPayloadMarker, findPayloadMarkerFrom_options hspans (by rw [UInt16.toNat_zero]; omega)]
    exact findPayloadMarkerFrom_wide (hrest.symm ▸ hwide)
  rw [fromBytes_of_header _ hheader, hscan]

theorem narrow_of_not_reaches (hheader : HeaderOk data) (h : ¬ReachesWideDelta data) :
    NarrowFrom (data.drop (optionsAt data)) 0 0 := by
  intro options j hspans htotal hwide
  exact h ⟨hheader.version, hheader.token, options, _, hspans.2, by omega, hwide⟩

theorem parsed_of_spans (hdata : packet.data = data) (hstart : packet.optionsStart = optionsAt data)
    (hend : packet.optionsEnd = optionsAt data + j)
    (hspans : Spans (data.drop (optionsAt data)) 0 j (encoded options))
    (hsum : totalDelta options < 2 ^ 16)
    (hstop : packet.optionsEnd = data.length ∧ packet.payload = [] ∨
      packet.optionsEnd + 1 < data.length ∧ data.getD packet.optionsEnd 0 = payloadMarker ∧
        packet.payload = data.drop (packet.optionsEnd + 1)) :
    Parsed overflowChecks data packet options := by
  have htiled : data.extract packet.optionsStart packet.optionsEnd = encoded options := by
    rw [hstart, hend, ← hspans.extract_eq, extract_drop, Nat.add_zero]
  have hoptions : packet.options = ⟨encoded options, 0, 0⟩ := by
    rw [CoapPacket.options, hdata, htiled]
  refine ⟨hdata, hstart, htiled, hstop, ?_⟩
  rw [hoptions]
  exact collect_options overflowChecks ⟨encoded options, 0, 0⟩ (spans_self _)
    (by rw [UInt16.toNat_zero, Nat.zero_add]; exact hsum)

theorem fromBytes_spec (overflowChecks : Bool) (hheader : HeaderOk data)
    (hnarrow : NarrowFrom (data.drop (optionsAt data)) 0 0) :
    match CoapPacket.fromBytes overflowChecks data with
    | none => False
    | some (.error _) => True
    | some (.ok packet) => ∃ options, Parsed overflowChecks data packet options := by
  have hspec := findPayloadMarkerFrom_spec overflowChecks 0 (Nat.zero_le _) hnarrow
  have hlength : (data.drop (optionsAt data)).length = data.length - optionsAt data :=
    List.length_drop
  have hfits := hheader.fits
  rw [fromBytes_of_header _ hheader, findPayloadMarker]
  revert hspec
  rcases findPayloadMarkerFrom overflowChecks (data.drop (optionsAt data)) 0 0 with
    _ | _ | _ | off
  · exact id
  · exact id
  · rintro ⟨options, j, hspans, hsum, ⟨⟨⟩, -⟩ | ⟨-, hj⟩⟩
    refine ⟨options, parsed_of_spans rfl rfl (by dsimp only; omega) hspans ?_ (.inl ⟨rfl, ?_⟩)⟩
    · rwa [UInt16.toNat_zero, Nat.zero_add] at hsum
    · exact if_neg (Nat.lt_irrefl _)
  · rintro ⟨options, j, hspans, hsum, ⟨⟨⟩, hj, hmarker⟩ | ⟨⟨⟩, -⟩⟩
    dsimp only
    by_cases hlast : optionsAt data + off + 1 = data.length
    · rw [if_pos hlast]
      trivial
    · rw [if_neg hlast]
      refine ⟨options, parsed_of_spans rfl rfl rfl hspans ?_ (.inr ⟨?_, ?_, ?_⟩)⟩
      · rwa [UInt16.toNat_zero, Nat.zero_add] at hsum
      · dsimp only
        omega
      · rw [← getD_drop]
        exact hmarker
      · exact if_pos (by dsimp only; omega)

theorem exact_of_narrow (h : ¬ReachesWideDelta data) (overflowChecks : Bool) :
    Exact overflowChecks data := by
  by_cases hheader : HeaderOk data
  · have hnarrow := narrow_of_not_reaches hheader h
    have hspec := fromBytes_spec overflowChecks hheader hnarrow
    refine ⟨?_, ?_, ?_⟩
    · intro hpanic
      rw [hpanic] at hspec
      exact hspec
    · intro options rest hdrop htotal
      have hspans : Spans (data.drop (optionsAt data)) 0 (0 + (encoded options).length)
          (encoded options) := .of_drop hdrop
      refine ⟨.optionNumberOverflow, ?_⟩
      rw [fromBytes_of_header _ hheader, findPayloadMarker,
        findPayloadMarkerFrom_rejects hnarrow hspans (by rw [UInt16.toNat_zero]; omega)]
    · intro packet hpacket
      rw [hpacket] at hspec
      exact hspec
  · obtain ⟨e, herror⟩ := fromBytes_of_not_header overflowChecks hheader
    refine ⟨?_, fun _ _ _ _ => ⟨e, herror⟩, ?_⟩
    · rw [herror]
      exact Option.some_ne_none _
    · intro packet hpacket
      rw [herror] at hpacket
      cases hpacket

theorem exact_iff_narrow (data : Bytes) :
    (∀ overflowChecks, Exact overflowChecks data) ↔ ¬ReachesWideDelta data := by
  constructor
  · intro h hreaches
    exact (h true).returns (fromBytes_panics hreaches)
  · exact exact_of_narrow

/-- With overflow checks the parser panics; without them it takes option 65804 for option 268. -/
theorem not_exact_of_wide_delta :
    ¬Exact true [0x40, 0x01, 0x00, 0x01, 0xE0, 0xFF, 0xFF] ∧
      ¬Exact false [0x40, 0x01, 0x00, 0x01, 0xE0, 0xFF, 0xFF] := by
  constructor
  · intro h
    exact h.returns (by decide +kernel)
  · intro h
    obtain ⟨_, herror⟩ := h.rejects
      [⟨0xE0, [0xFF, 0xFF], [], [], 65804, .word 0xFF 0xFF, .nibble (by decide)⟩] [] rfl (by decide)
    have haccept : CoapPacket.fromBytes false [0x40, 0x01, 0x00, 0x01, 0xE0, 0xFF, 0xFF] =
      some (.ok ⟨[0x40, 0x01, 0x00, 0x01, 0xE0, 0xFF, 0xFF], 4, 7, 7⟩) := by decide +kernel
    rw [haccept] at herror
    cases herror

end Lichen.Coap
