import Lichen.Coap.Parse
import Lichen.Lib.Guard

namespace Lichen.Coap

open Lichen.Lib List

structure CoapBuilder where
  out : Bytes
  pos : Nat
  lastOptionNumber : UInt16
  optionsDone : Bool

def optionEncodingLen (delta : UInt16) (valueLen : Nat) : Nat :=
  let deltaExt := if delta < 13 then 0 else if delta < 269 then 1 else 2
  let lenExt := if valueLen < 13 then 0 else if valueLen < 269 then 1 else 2
  1 + deltaExt + lenExt + valueLen

def splitDelta (delta : UInt16) : UInt8 × Bytes :=
  if delta < 13 then (delta.toUInt8, [])
  else if delta < 269 then (13, [(delta - 13).toUInt8])
  else (14, [((delta - 269) >>> 8).toUInt8, (delta - 269).toUInt8])

def splitLength (len : Nat) : UInt8 × Bytes :=
  if len < 13 then (UInt8.ofNat len, [])
  else if len < 269 then (13, [UInt8.ofNat (len - 13)])
  else (14, [UInt8.ofNat ((len - 269) >>> 8), UInt8.ofNat (len - 269)])

def optionPieces (delta : UInt16) (value : Bytes) : List Bytes :=
  [[((splitDelta delta).1 <<< 4) ||| (splitLength value.length).1], (splitDelta delta).2,
    (splitLength value.length).2, value]

def writeOption (out : Bytes) (pos : Nat) (delta : UInt16) (value : Bytes) : Bytes × Nat :=
  (overwriteAll out pos (optionPieces delta value), pos + (optionPieces delta value).flatten.length)

namespace CoapBuilder

def new (out : Bytes) (msgType : MessageType) (code : MessageCode) (messageId : UInt16)
    (token : Bytes) : Except CoapError CoapBuilder :=
  if maxTokenLen < token.length then .error (.tokenTooLong (UInt8.ofNat token.length))
  else if out.length < minHeaderLen + token.length then
    .error (.bufferTooSmall ⟨minHeaderLen + token.length, out.length⟩)
  else
    .ok {
      out := overwriteAll out 0
        [[(coapVersion <<< 6) ||| (msgType.toU8 <<< 4) ||| UInt8.ofNat token.length], [code.byte],
          beBytes 2 messageId.toNat, token]
      pos := minHeaderLen + token.length
      lastOptionNumber := 0
      optionsDone := false }

section

variable (builder : CoapBuilder)

def option (number : UInt16) (value : Bytes) :
    Except CoapError CoapBuilder :=
  if builder.optionsDone then .error .invalidOptionDelta
  else if number < builder.lastOptionNumber then .error .invalidOptionDelta
  else
    let delta := number - builder.lastOptionNumber
    let needed := optionEncodingLen delta value.length
    if builder.out.length < builder.pos + needed then
      .error (.bufferTooSmall ⟨builder.pos + needed, builder.out.length⟩)
    else
      let written := writeOption builder.out builder.pos delta value
      .ok { builder with out := written.1, pos := written.2, lastOptionNumber := number }

def payload (data : Bytes) : Except CoapError CoapBuilder :=
  if data = [] then .ok { builder with optionsDone := true }
  else
    let needed := builder.pos + 1 + data.length
    if builder.out.length < needed then .error (.bufferTooSmall ⟨needed, builder.out.length⟩)
    else
      .ok {
        out := overwriteAll builder.out builder.pos [[payloadMarker], data]
        pos := builder.pos + 1 + data.length
        lastOptionNumber := builder.lastOptionNumber
        optionsDone := true }

def asBytes : Bytes := builder.out.take builder.pos

end

end CoapBuilder

structure Message where
  msgType : MessageType
  code : MessageCode
  messageId : UInt16
  token : Bytes
  options : List CoapOption
  payload : Bytes

def Message.build (message : Message) (out : Bytes) : Except CoapError Bytes := do
  let builder ← CoapBuilder.new out message.msgType message.code message.messageId message.token
  let builder ← message.options.foldlM
    (fun builder option => builder.option option.number option.value) builder
  let builder ← builder.payload message.payload
  return builder.asBytes

section Fields

variable {delta : UInt16}

theorem toUInt8_eq_ofNat (n : UInt16) : n.toUInt8 = UInt8.ofNat n.toNat := by
  apply UInt8.toNat_inj.mp
  rw [UInt16.toNat_toUInt8, UInt8.toNat_ofNat']

theorem beNat_ofNat_pair (h : n < 2 ^ 16) : beNat [UInt8.ofNat (n >>> 8), UInt8.ofNat n] = n := by
  rw [beNat_pair, UInt8.toNat_ofNat', UInt8.toNat_ofNat', Nat.shiftRight_eq_div_pow]
  omega

theorem field_splitLength (h : len ≤ 65804) :
    Field (splitLength len).1 (splitLength len).2 len := by
  rw [splitLength]
  by_cases hnibble : len < 13
  · rw [if_pos hnibble]
    have hlen : (UInt8.ofNat len).toNat = len := by
      rw [UInt8.toNat_ofNat', Nat.mod_eq_of_lt (by omega)]
    have hfield : Field (UInt8.ofNat len) [] (UInt8.ofNat len).toNat :=
      .nibble (UInt8.lt_iff_toNat_lt.mpr (hlen.symm ▸ hnibble))
    rwa [hlen] at hfield
  rw [if_neg hnibble]
  by_cases hbyte : len < 269
  · rw [if_pos hbyte]
    have hfield := Field.byte (UInt8.ofNat (len - 13))
    rwa [UInt8.toNat_ofNat', Nat.mod_eq_of_lt (by omega), Nat.sub_add_cancel (by omega)] at hfield
  · rw [if_neg hbyte]
    have hfield := Field.word (UInt8.ofNat ((len - 269) >>> 8)) (UInt8.ofNat (len - 269))
    rwa [beNat_ofNat_pair (by omega), Nat.sub_add_cancel (by omega)] at hfield

theorem splitDelta_eq : splitDelta delta = splitLength delta.toNat := by
  have h13 : delta < 13 ↔ delta.toNat < 13 := UInt16.lt_iff_toNat_lt
  have h269 : delta < 269 ↔ delta.toNat < 269 := UInt16.lt_iff_toNat_lt
  have hsub : ∀ k : UInt16, ¬delta < k → (delta - k).toNat = delta.toNat - k.toNat :=
    fun k h => UInt16.toNat_sub_of_le _ _ (UInt16.not_lt.mp h)
  rw [splitDelta, splitLength]
  by_cases hnibble : delta < 13
  · rw [if_pos hnibble, if_pos (h13.mp hnibble), toUInt8_eq_ofNat]
  rw [if_neg hnibble, if_neg (fun h => hnibble (h13.mpr h))]
  by_cases hbyte : delta < 269
  · rw [if_pos hbyte, if_pos (h269.mp hbyte), toUInt8_eq_ofNat, hsub 13 hnibble]
    rfl
  · rw [if_neg hbyte, if_neg (fun h => hbyte (h269.mpr h)), toUInt8_eq_ofNat, toUInt8_eq_ofNat,
      UInt16.toNat_shiftRight, hsub 269 hbyte]
    rfl

theorem field_splitDelta (delta : UInt16) :
    Field (splitDelta delta).1 (splitDelta delta).2 delta.toNat := by
  rw [splitDelta_eq]
  exact field_splitLength (by have := delta.toNat_lt; omega)

theorem nibbles_or {a b : UInt8} (ha : a < 15) (hb : b < 15) :
    ((a <<< 4 ||| b) >>> 4) &&& 0x0F = a ∧ (a <<< 4 ||| b) &&& 0x0F = b := by
  have hall : ∀ a < 15, ∀ b < 15,
      ((UInt8.ofNat a <<< 4 ||| UInt8.ofNat b) >>> 4) &&& 0x0F = UInt8.ofNat a ∧
        (UInt8.ofNat a <<< 4 ||| UInt8.ofNat b) &&& 0x0F = UInt8.ofNat b := by decide +kernel
  have hpair := hall a.toNat (UInt8.lt_iff_toNat_lt.mp ha) b.toNat (UInt8.lt_iff_toNat_lt.mp hb)
  rwa [UInt8.ofNat_toNat, UInt8.ofNat_toNat] at hpair

end Fields

def encodedOption (delta : UInt16) (value : Bytes) (h : value.length ≤ 65804) : EncodedOption where
  first := ((splitDelta delta).1 <<< 4) ||| (splitLength value.length).1
  deltaExt := (splitDelta delta).2
  lengthExt := (splitLength value.length).2
  value := value
  delta := delta.toNat
  deltaField := by
    have hdelta := field_splitDelta delta
    rw [(nibbles_or hdelta.lt (field_splitLength h).lt).1]
    exact hdelta
  lengthField := by
    have hlength := field_splitLength h
    rw [(nibbles_or (field_splitDelta delta).lt hlength.lt).2]
    exact hlength

theorem bytes_encodedOption (h : value.length ≤ 65804) :
    (encodedOption delta value h).bytes = (optionPieces delta value).flatten := by
  simp [EncodedOption.bytes, encodedOption, optionPieces]

theorem length_optionPieces :
    (optionPieces delta value).flatten.length = optionEncodingLen delta value.length := by
  simp only [optionPieces, optionEncodingLen, splitDelta, splitLength, length_flatten,
    map_cons, map_nil, sum_cons, sum_nil, length_singleton]
  split_ifs <;> simp <;> omega

namespace CoapBuilder

variable {builder builder' : CoapBuilder} {out bytes value data token : Bytes}

def Wrote (builder : CoapBuilder) (bytes : Bytes) : Prop :=
  builder.pos ≤ builder.out.length ∧ builder.asBytes = bytes

theorem wrote_overwriteAll (h : builder.Wrote bytes)
    (hfits : builder.pos + pieces.flatten.length ≤ builder.out.length)
    (hout : builder'.out = overwriteAll builder.out builder.pos pieces)
    (hpos : builder'.pos = builder.pos + pieces.flatten.length) :
    builder'.Wrote (bytes ++ pieces.flatten) := by
  have htake := take_overwriteAll builder.out builder.pos hfits
  constructor
  · rw [hout, hpos, length_overwriteAll _ _ hfits]
    exact hfits
  · rw [asBytes, hout, hpos, htake]
    exact congrArg (· ++ pieces.flatten) h.2

theorem wrote_option (hwrote : builder.Wrote bytes) (h : builder.option number value = .ok builder') :
    builder.lastOptionNumber ≤ number ∧ builder'.lastOptionNumber = number ∧ builder'.Wrote
        (bytes ++ (optionPieces (number - builder.lastOptionNumber) value).flatten) := by
  rw [option] at h
  split_ifs at h with hdone horder
  dsimp only at h
  split_ifs at h with hfits
  cases h
  rw [← length_optionPieces] at hfits
  exact ⟨UInt16.not_lt.mp horder, rfl, wrote_overwriteAll hwrote (Nat.not_lt.mp hfits) rfl rfl⟩

def payloadBytes (data : Bytes) : Bytes := if data = [] then [] else payloadMarker :: data

theorem wrote_payload (hwrote : builder.Wrote bytes) (h : builder.payload data = .ok builder') :
    builder'.asBytes = bytes ++ payloadBytes data := by
  rw [payload] at h
  rw [payloadBytes]
  by_cases hdata : data = []
  · rw [if_pos hdata] at h ⊢
    cases h
    rw [append_nil]
    exact hwrote.2
  · rw [if_neg hdata] at h ⊢
    dsimp only at h
    split_ifs at h with hfits
    cases h
    have hlength : [[payloadMarker], data].flatten.length = 1 + data.length := by simp; omega
    have hpieces : [[payloadMarker], data].flatten = payloadMarker :: data := by simp
    rw [← hpieces]
    exact (wrote_overwriteAll hwrote (by omega) rfl (by dsimp only; omega)).2

def headerBytes (message : Message) : Bytes :=
  [(coapVersion <<< 6) ||| (message.msgType.toU8 <<< 4) ||| UInt8.ofNat message.token.length,
    message.code.byte] ++ beBytes 2 message.messageId.toNat

theorem wrote_new
    (h : new out message.msgType message.code message.messageId message.token = .ok builder) :
    message.token.length ≤ maxTokenLen ∧ builder.lastOptionNumber = 0 ∧
      builder.Wrote (headerBytes message ++ message.token) := by
  rw [new] at h
  split_ifs at h with htoken hfits
  cases h
  have hstart : (⟨out, 0, 0, false⟩ : CoapBuilder).Wrote [] := ⟨Nat.zero_le _, rfl⟩
  have hlength : (headerBytes message ++ message.token).length =
      minHeaderLen + message.token.length := by
    rw [length_append, headerBytes, length_append, length_beBytes]
    rfl
  have hbytes : [[(coapVersion <<< 6) ||| (message.msgType.toU8 <<< 4) |||
      UInt8.ofNat message.token.length], [message.code.byte], beBytes 2 message.messageId.toNat,
      message.token].flatten = headerBytes message ++ message.token := by
    simp [headerBytes]
  refine ⟨Nat.not_lt.mp htoken, rfl, ?_⟩
  rw [← hbytes, ← nil_append (List.flatten _)]
  exact wrote_overwriteAll hstart (by rw [hbytes, hlength]; dsimp only; omega) rfl
    (by rw [hbytes, hlength]; dsimp only; omega)

theorem wrote_options {options : List CoapOption} (hwrote : builder.Wrote bytes)
    (hlengths : ∀ option ∈ options, option.value.length ≤ 65804)
    (h : options.foldlM (fun builder option => builder.option option.number option.value) builder =
      .ok builder') : ∃ encodings, builder'.Wrote (bytes ++ encoded encodings) ∧
      builder.lastOptionNumber.toNat + totalDelta encodings = builder'.lastOptionNumber.toNat ∧
      numbered builder.lastOptionNumber.toNat encodings =
        options.map (fun option => (option.number.toNat, option.value)) := by
  induction options generalizing builder bytes with
  | nil =>
    cases h
    exact ⟨[], by rw [encoded, flatMap_nil, append_nil]; exact hwrote, rfl, rfl⟩
  | cons first options ih =>
    rw [foldlM_cons] at h
    obtain ⟨_, hoption, h⟩ := bind_eq_ok.mp h
    obtain ⟨horder, hlast, hnext⟩ := wrote_option hwrote hoption
    obtain ⟨encodings, hwrote', htotal, hnumbered⟩ :=
      ih hnext (fun option hmem => hlengths option (mem_cons_of_mem _ hmem)) h
    have hlength := hlengths first mem_cons_self
    have hdelta : builder.lastOptionNumber.toNat +
        (first.number - builder.lastOptionNumber).toNat = first.number.toNat := by
      rw [UInt16.toNat_sub_of_le _ _ horder]
      exact Nat.add_sub_cancel' (UInt16.le_iff_toNat_le.mp horder)
    rw [hlast] at htotal hnumbered
    refine ⟨encodedOption (first.number - builder.lastOptionNumber) first.value hlength ::
      encodings, ?_, ?_, ?_⟩
    · rw [encoded, flatMap_cons, bytes_encodedOption, ← append_assoc]
      exact hwrote'
    · rw [totalDelta_cons, ← Nat.add_assoc]
      exact (congrArg (· + totalDelta encodings) hdelta).trans htotal
    · rw [numbered, map_cons, ← hnumbered]
      dsimp only [encodedOption]
      rw [hdelta]

end CoapBuilder

open CoapBuilder

theorem Message.build_eq {out bytes : Bytes} (h : message.build out = .ok bytes)
    (hlengths : ∀ option ∈ message.options, option.value.length ≤ 65804) :
    message.token.length ≤ maxTokenLen ∧ ∃ encodings, totalDelta encodings < 2 ^ 16 ∧
      numbered 0 encodings =
        message.options.map (fun option => (option.number.toNat, option.value)) ∧
      bytes = headerBytes message ++
        (message.token ++ (encoded encodings ++ payloadBytes message.payload)) := by
  obtain ⟨_, hnew, h⟩ := bind_eq_ok.mp h
  obtain ⟨builder', hoptions, h⟩ := bind_eq_ok.mp h
  obtain ⟨_, hpayload, ⟨⟩⟩ := bind_eq_ok.mp h
  obtain ⟨htoken, hlast, hwrote⟩ := wrote_new hnew
  obtain ⟨encodings, hwrote', htotal, hnumbered⟩ := wrote_options hwrote hlengths hoptions
  rw [hlast, UInt16.toNat_zero] at htotal hnumbered
  refine ⟨htoken, encodings, ?_, hnumbered, ?_⟩
  · have hlt := builder'.lastOptionNumber.toNat_lt
    omega
  · rw [wrote_payload hwrote' hpayload, append_assoc, append_assoc]

namespace Message

variable {message : Message} {overflowChecks : Bool} {bytes : Bytes}

def ReturnedBy (message : Message) (overflowChecks : Bool) (bytes : Bytes) : Prop :=
  ∃ packet, CoapPacket.fromBytes overflowChecks bytes = some (.ok packet) ∧
    packet.msgType = message.msgType ∧ packet.code = message.code ∧
    packet.messageId = message.messageId ∧ packet.token = message.token ∧
    packet.options.collect overflowChecks = some (message.options.map .ok) ∧
    packet.payload = message.payload

section Header

theorem first_byte (msgType : MessageType) (h : n ≤ 8) :
    (coapVersion <<< 6 ||| msgType.toU8 <<< 4 ||| UInt8.ofNat n) >>> 6 = coapVersion ∧
      (coapVersion <<< 6 ||| msgType.toU8 <<< 4 ||| UInt8.ofNat n) >>> 4 &&& 0x03 = msgType.toU8 ∧
      ((coapVersion <<< 6 ||| msgType.toU8 <<< 4 ||| UInt8.ofNat n) &&& 0x0F).toNat = n := by
  cases msgType <;> (revert n; decide +kernel)

theorem length_headerBytes (message : Message) : (headerBytes message).length = minHeaderLen := by
  rw [headerBytes, length_append, length_beBytes]
  rfl

section

variable (htoken : message.token.length ≤ maxTokenLen)

include htoken

theorem optionsAt_headerBytes :
    optionsAt (headerBytes message ++ (message.token ++ rest)) =
      minHeaderLen + message.token.length :=
  congrArg (minHeaderLen + ·) (first_byte message.msgType htoken).2.2

theorem drop_headerBytes : (headerBytes message ++ (message.token ++ rest)).drop
      (optionsAt (headerBytes message ++ (message.token ++ rest))) = rest := by
  rw [optionsAt_headerBytes htoken, ← append_assoc]
  exact drop_left' (by rw [length_append, length_headerBytes])

theorem headerOk_headerBytes : HeaderOk (headerBytes message ++ (message.token ++ rest)) := by
  have hlength : (headerBytes message ++ (message.token ++ rest)).length =
      minHeaderLen + (message.token.length + rest.length) := by
    rw [length_append, length_append, length_headerBytes]
  refine ⟨by omega, (first_byte message.msgType htoken).1, ?_, ?_⟩
  · exact (first_byte message.msgType htoken).2.2.trans_le htoken
  · rw [optionsAt_headerBytes htoken]
    omega

end

theorem header_fields (packet : CoapPacket) (htoken : message.token.length ≤ maxTokenLen)
    (hdata : packet.data = headerBytes message ++ (message.token ++ rest)) :
    packet.msgType = message.msgType ∧ packet.code = message.code ∧
      packet.messageId = message.messageId := by
  refine ⟨?_, ?_, ?_⟩
  · have hfirst : (packet.data.getD 0 0 >>> 4) &&& 0x03 = message.msgType.toU8 := by
      rw [hdata]
      exact (first_byte message.msgType htoken).2.1
    rw [CoapPacket.msgType, hfirst]
    cases message.msgType <;> rfl
  · rw [CoapPacket.code, hdata]
    rfl
  · have hid : packet.data.extract 2 4 = beBytes 2 message.messageId.toNat := by
      rw [hdata, headerBytes, append_assoc]
      exact extract_field rfl (by rw [length_beBytes]; rfl)
    rw [CoapPacket.messageId, hid, beNat_beBytes_of_lt message.messageId.toNat_lt,
      UInt16.ofNat_toNat]

theorem token_eq (packet : CoapPacket)
    (hdata : packet.data = headerBytes message ++ (message.token ++ rest))
    (hstart : packet.optionsStart = minHeaderLen + message.token.length) :
    packet.token = message.token := by
  rw [CoapPacket.token, hdata, hstart]
  exact extract_field (length_headerBytes message) (by rw [length_headerBytes])

end Header

section Parse

variable {encodings : List EncodedOption}

theorem findPayloadMarker_encoded (hsum : totalDelta encodings < 2 ^ 16) (payload : Bytes) :
    findPayloadMarker overflowChecks (encoded encodings ++ payloadBytes payload) =
      some (.ok (if payload = [] then none else some (encoded encodings).length)) := by
  have hspans : Spans (encoded encodings ++ payloadBytes payload) 0
      (0 + (encoded encodings).length) (encoded encodings) := .of_drop rfl
  rw [findPayloadMarker, findPayloadMarkerFrom_options hspans (by rw [UInt16.toNat_zero]; omega),
    Nat.zero_add, findPayloadMarkerFrom, payloadBytes]
  by_cases hpayload : payload = []
  · rw [if_pos hpayload, if_pos hpayload, append_nil, if_neg (Nat.lt_irrefl _)]
  · have hmarker : (encoded encodings ++ payloadMarker :: payload).getD (encoded encodings).length 0 =
        payloadMarker := by
      rw [getD_eq_getElem?_getD, List.getElem?_append_right le_rfl, Nat.sub_self]
      rfl
    rw [if_neg hpayload, if_neg hpayload, if_pos (by simp), hmarker]
    rw [if_pos rfl]

theorem options_eq {items options : List CoapOption}
    (h : items.map (fun item => (item.number.toNat, item.value)) =
      options.map (fun item => (item.number.toNat, item.value))) : items = options := by
  refine map_injective_iff.mpr ?_ h
  rintro ⟨number, value⟩ ⟨_, _⟩ hitem
  obtain ⟨hnumber, hvalue⟩ := Prod.mk.inj hitem
  exact CoapOption.mk.injEq .. ▸ ⟨UInt16.toNat_inj.mp hnumber, hvalue⟩

section

variable (hnumbered : numbered 0 encodings =
  message.options.map (fun option => (option.number.toNat, option.value)))

include hnumbered

theorem returnedBy_of_parsed (htoken : message.token.length ≤ maxTokenLen)
    (hbytes : bytes = headerBytes message ++ (message.token ++ rest))
    (hpacket : CoapPacket.fromBytes overflowChecks bytes = some (.ok packet))
    (hparsed : Parsed overflowChecks bytes packet encodings)
    (hpayload : packet.payload = message.payload) : message.ReturnedBy overflowChecks bytes := by
  have hdata := hparsed.data_eq.trans hbytes
  have hstart : packet.optionsStart = minHeaderLen + message.token.length :=
    hparsed.start.trans (hbytes ▸ optionsAt_headerBytes htoken)
  obtain ⟨hmsgType, hcode, hmessageId⟩ := header_fields packet htoken hdata
  obtain ⟨items, hcollect, hitems⟩ := hparsed.items
  rw [options_eq (hitems.trans hnumbered)] at hcollect
  exact ⟨packet, hpacket, hmsgType, hcode, hmessageId, token_eq packet hdata hstart, hcollect,
    hpayload⟩

theorem returnedBy_encoded (htoken : message.token.length ≤ maxTokenLen)
    (hsum : totalDelta encodings < 2 ^ 16) (hbytes : bytes = headerBytes message ++
      (message.token ++ (encoded encodings ++ payloadBytes message.payload))) :
    message.ReturnedBy overflowChecks bytes := by
  have hheader : HeaderOk bytes := hbytes ▸ headerOk_headerBytes htoken
  have hdrop : bytes.drop (optionsAt bytes) = encoded encodings ++ payloadBytes message.payload :=
    hbytes ▸ drop_headerBytes htoken
  have hlength : bytes.length - optionsAt bytes = (encoded encodings).length +
      (payloadBytes message.payload).length := by
    rw [← length_drop, hdrop, length_append]
  have hfits := hheader.fits
  have hspans : Spans (bytes.drop (optionsAt bytes)) 0 (0 + (encoded encodings).length)
      (encoded encodings) := .of_drop hdrop
  rw [Nat.zero_add] at hspans
  have hparse := fromBytes_of_header overflowChecks hheader
  rw [hdrop, findPayloadMarker_encoded hsum] at hparse
  rw [payloadBytes] at hlength hdrop
  by_cases hpayload : message.payload = []
  · rw [if_pos hpayload] at hparse hlength
    rw [length_nil] at hlength
    have hnone : (⟨bytes, optionsAt bytes, bytes.length, bytes.length⟩ : CoapPacket).payload = [] :=
      if_neg (Nat.lt_irrefl _)
    exact returnedBy_of_parsed hnumbered htoken hbytes hparse
      (parsed_of_spans rfl rfl (by dsimp only; omega) hspans hsum (.inl ⟨rfl, hnone⟩))
      (hnone.trans hpayload.symm)
  · rw [if_neg hpayload] at hparse hlength hdrop
    rw [length_cons] at hlength
    have hpos := length_pos_of_ne_nil hpayload
    dsimp only at hparse
    rw [if_neg (by omega)] at hparse
    have hrest : bytes.drop (optionsAt bytes + (encoded encodings).length) =
        payloadMarker :: message.payload := by
      rw [← drop_drop, hdrop, drop_left]
    have hmarker : bytes.getD (optionsAt bytes + (encoded encodings).length) 0 = payloadMarker :=
      ((spans_cons 0).mp (Spans.of_drop (p := [payloadMarker]) hrest)).2.1
    have hbehind : (⟨bytes, optionsAt bytes, optionsAt bytes + (encoded encodings).length,
        optionsAt bytes + (encoded encodings).length + 1⟩ : CoapPacket).payload =
        bytes.drop (optionsAt bytes + (encoded encodings).length + 1) :=
      if_pos (by dsimp only; omega)
    refine returnedBy_of_parsed hnumbered htoken hbytes hparse
      (parsed_of_spans rfl rfl rfl hspans hsum (.inr ⟨by dsimp only; omega, hmarker, hbehind⟩))
      (hbehind.trans ?_)
    rw [← drop_drop, hrest]
    rfl

end

end Parse

section Long

variable {it : OptionIterator} {option : CoapOption}

theorem le_of_readLength (h : readLength data i nibble = .ok (len, k)) : len ≤ 65804 := by
  revert h
  rw [readLength]
  have hnibble := nibble.toNat_lt
  have hbyte := (data.getD i 0).toNat_lt
  have hpair := beNat_pair_lt (data.getD i 0) (data.getD (i + 1) 0)
  split_ifs
  · rintro ⟨⟩
  · rintro ⟨⟩
    omega
  · rintro ⟨⟩
  · rintro ⟨⟩
    rw [toNat_or_pair]
    omega
  · rintro ⟨⟩
  · rintro ⟨⟩
    omega

theorem le_of_next (h : it.next overflowChecks = some (some (.ok option), it')) :
    option.value.length ≤ 65804 := by
  revert h
  rw [OptionIterator.next]
  split_ifs
  · rintro ⟨⟩
  dsimp only
  split_ifs
  · rintro ⟨⟩
  split
  · rintro ⟨⟩
  · rintro ⟨⟩
  split
  · rintro ⟨⟩
  next hlength =>
    split_ifs with hlong
    · rintro ⟨⟩
    split
    · rintro ⟨⟩
    · rintro ⟨⟩
      rw [length_extract_of_le (Nat.not_lt.mp hlong), Nat.add_sub_cancel_left]
      exact le_of_readLength hlength

theorem le_of_collect (h : it.collect overflowChecks = some items) (hoption : .ok option ∈ items) :
    option.value.length ≤ 65804 := by
  fun_induction OptionIterator.collect overflowChecks it generalizing items with
  | case1 => cases h
  | case2 =>
    cases h
    exact (not_mem_nil hoption).elim
  | case3 it item it' hnext ih =>
    obtain ⟨_, hrest, rfl⟩ := Option.map_eq_some_iff.mp h
    cases mem_cons.mp hoption with
    | inl hfirst => exact le_of_next (hfirst ▸ hnext)
    | inr hmem => exact ih hrest hmem

theorem optionEncodingLen_le (delta : UInt16) (n : Nat) : optionEncodingLen delta n ≤ n + 5 := by
  simp only [optionEncodingLen]
  split_ifs <;> omega

theorem build_single (number : UInt16) (value out : Bytes) (h : value.length + 9 ≤ out.length) :
    ∃ bytes, (⟨.confirmable, ⟨1⟩, 1, [], [⟨number, value⟩], []⟩ : Message).build out = .ok bytes := by
  have hneeded := optionEncodingLen_le (number - 0) value.length
  have hlength (pieces : List Bytes) (hpieces : pieces.flatten.length = 4) :
      (overwriteAll out 0 pieces).length = out.length :=
    length_overwriteAll _ _ (by omega)
  have hnew : CoapBuilder.new out .confirmable ⟨1⟩ 1 [] =
      .ok ⟨overwriteAll out 0 [[0x40], [1], beBytes 2 1, []], 4, 0, false⟩ := by
    rw [CoapBuilder.new, if_neg (by decide), if_neg (by rw [minHeaderLen, length_nil]; omega)]
    rfl
  have hoption : ∃ builder, CoapBuilder.option
      ⟨overwriteAll out 0 [[0x40], [1], beBytes 2 1, []], 4, 0, false⟩ number value =
      .ok builder := by
    rw [CoapBuilder.option, if_neg Bool.false_ne_true, if_neg (UInt16.not_lt.mpr UInt16.zero_le)]
    dsimp only
    rw [if_neg (by rw [hlength _ rfl]; omega)]
    exact ⟨_, rfl⟩
  obtain ⟨builder, hoption⟩ := hoption
  refine ⟨builder.asBytes, ?_⟩
  rw [Message.build]
  rw [hnew]
  dsimp only [bind, Except.bind, List.foldlM]
  rw [hoption]
  rfl

end Long

theorem returnedBy_iff_lengths (overflowChecks : Bool) (message : Message) (out bytes : Bytes)
    (h : message.build out = .ok bytes) :
    message.ReturnedBy overflowChecks bytes ↔
      ∀ option ∈ message.options, option.value.length ≤ 65804 := by
  constructor
  · rintro ⟨_, -, -, -, -, -, hcollect, -⟩ option hoption
    exact le_of_collect hcollect (mem_map_of_mem hoption)
  · intro hlengths
    obtain ⟨htoken, _, hsum, hnumbered, hbytes⟩ := build_eq h hlengths
    exact returnedBy_encoded hnumbered htoken hsum hbytes

theorem returnedBy_of_two_options :
    (⟨.confirmable, ⟨1⟩, 0x1234, [7], [⟨11, [0x61]⟩, ⟨300, [1, 2]⟩], [9]⟩ : Message).ReturnedBy true
      [0x41, 0x01, 0x12, 0x34, 0x07, 0xB1, 0x61, 0xE2, 0x00, 0x14, 0x01, 0x02, 0xFF, 0x09] :=
  (returnedBy_iff_lengths true _ (List.replicate 16 0) _ (by decide +kernel)).mpr (by decide)

theorem not_returnedBy_of_long :
    ∃ bytes, (⟨.confirmable, ⟨1⟩, 1, [], [⟨11, List.replicate 65805 0⟩], []⟩ : Message).build
        (List.replicate 65814 0) = .ok bytes ∧
      ∀ overflowChecks, ¬(⟨.confirmable, ⟨1⟩, 1, [], [⟨11, List.replicate 65805 0⟩], []⟩ :
        Message).ReturnedBy overflowChecks bytes := by
  obtain ⟨bytes, hbytes⟩ := build_single 11 (List.replicate 65805 0) (List.replicate 65814 0)
    (by rw [length_replicate, length_replicate])
  refine ⟨bytes, hbytes, ?_⟩
  rintro overflowChecks ⟨_, -, -, -, -, -, hcollect, -⟩
  have hle := le_of_collect hcollect (mem_map_of_mem mem_cons_self)
  rw [length_replicate] at hle
  exact absurd hle (by decide)
end Message

end Lichen.Coap
