import Lichen.Schc.Receiver
import Lichen.Schc.Sender

namespace Lichen.Schc

open Lichen.Lib Control

structure Tile (s : FragmentSender) (storage : Bytes) (i : Nat) : Prop where
  lt : i + 1 < s.count
  stored : ∀ n, i * tileSize ≤ n → n < (i + 1) * tileSize → storage[n]? = s.payload[n]?

/-- No packet of fewer regular tiles and the final tile has the MIC of the payload. -/
def NoMicCollision (payload : Bytes) : Prop :=
  ∀ k < tileCount payload - 1, computeMic (payload.take (k * tileSize) ++
    payload.drop ((tileCount payload - 1) * tileSize)) ≠ computeMic payload

namespace FragmentReceiver

variable {s : FragmentSender} {r : FragmentReceiver}

theorem regularCount_spec (h : ∀ j, b.getLsbD j = true → j ≤ 62) :
    regularCount b ≤ 63 ∧ (0 < regularCount b → b.getLsbD (63 - regularCount b) = true) ∧
      ∀ j, j + regularCount b < 63 → b.getLsbD j = false := by
  rw [regularCount]
  split
  · rename_i hzero
    simp [hzero]
  · rename_i hne
    have hbit := BitVec.getLsbD_true_ctz_of_ne_zero hne
    have hle := h _ hbit
    simp only [windowSize]
    refine ⟨by omega, fun _ => ?_, fun j hj => BitVec.getLsbD_false_of_lt_ctz (by omega)⟩
    rw [show 63 - (63 - b.ctz.toNat) = b.ctz.toNat by omega]
    exact hbit

theorem getLsbD_of_required (h : b &&& required count = required count) (hlow : 63 ≤ j + count)
    (hj : j < 63) : b.getLsbD j = true := by
  have hcount : count ≠ 0 := by omega
  have hbit : (required count).getLsbD j = true := by
    rw [required, if_neg hcount, BitVec.getLsbD_and, BitVec.getLsbD_not, BitVec.getLsbD_ushiftRight,
      getLsbD_bitmapMask, getLsbD_bitmapMask]
    simp
    omega
  rw [← h, BitVec.getLsbD_and, Bool.and_eq_true] at hbit
  exact hbit.1

structure Genuine (s : FragmentSender) (r : FragmentReceiver) : Prop where
  tiles : ∀ w ≤ 1, ∀ j, (r.bitmap w).getLsbD j = true →
    j ≤ 62 ∧ Tile s r.storage (w * windowSize + 62 - j)
  all1 : r.all1 = true → r.all1Window = s.finalWindow ∧ r.all1Mic = s.mic ∧
    r.finalTile.take r.finalLen = s.payload.drop ((s.count - 1) * tileSize) ∧
    r.finalLen = (s.payload.drop ((s.count - 1) * tileSize)).length

/-- A packet is only held when it is complete, and then it is the one of the sender. -/
def Delivered (s : FragmentSender) (r : FragmentReceiver) : Prop :=
  r.packetLen = none ∨ (r.done = true ∧ r.packet = some s.payload)

/-- What a call of the receiver leads to: it reports the packet of the sender only, and
acknowledges it only with a report. -/
structure Sound (s : FragmentSender) (p : ReceiverResult × FragmentReceiver) : Prop where
  genuine : Genuine s p.2
  delivered : Delivered s p.2
  reports : ∀ n, p.1.packetLen = some n → p.2.packet = some s.payload
  completes : ∀ ack, p.1.response = some (.ack ack) → ack.complete = true →
    p.1.packetLen.isSome = true

theorem Genuine.congr (h : Genuine s r) (hstorage : r'.storage = r.storage)
    (hbitmaps : r'.bitmaps = r.bitmaps) (hall1 : r'.all1 = r.all1)
    (hwindow : r'.all1Window = r.all1Window) (hmic : r'.all1Mic = r.all1Mic)
    (htile : r'.finalTile = r.finalTile) (hlen : r'.finalLen = r.finalLen) : Genuine s r' := by
  obtain ⟨htiles, hfinal⟩ := h
  constructor
  · simp only [bitmap, hstorage, hbitmaps] at htiles ⊢
    exact htiles
  · rw [hall1, hwindow, hmic, htile, hlen]
    exact hfinal

theorem genuine_of_empty (hbitmaps : r.bitmaps = (0, 0)) (hall1 : r.all1 = false) :
    Genuine s r := by
  refine ⟨fun w _ j hbit => ?_, by simp [hall1]⟩
  simp [bitmap, hbitmaps] at hbit

theorem sound_abort (ruleId : UInt8) :
    Sound s (r.abort ruleId) :=
  ⟨genuine_of_empty rfl rfl, .inl rfl, by simp [abort], by simp [abort]⟩

theorem sound_default (h : Genuine s r) (hdelivered : Delivered s r) : Sound s (.default, r) :=
  ⟨h, hdelivered, by simp [ReceiverResult.default], by simp [ReceiverResult.default]⟩

theorem respond_cases (ack : Ack) :
    r.respond ack = r.abort ack.ruleId ∨
    r.respond ack = (⟨some (.ack ack), none, none, false⟩,
      { r with attempts := r.attempts + 1 }) := by
  rw [respond]
  split
  · exact .inl rfl
  · exact .inr rfl

theorem sound_ack {ack : Ack} (h : Genuine s r) (hnone : r.packetLen = none)
    (hincomplete : ack.complete = false) (attempts : Nat) :
    Sound s (⟨some (.ack ack), none, micOk, false⟩, { r with attempts }) := by
  refine ⟨h.congr rfl rfl rfl rfl rfl rfl rfl, .inl hnone, by simp, ?_⟩
  rintro _ ⟨⟩ hcomplete
  rw [hincomplete] at hcomplete
  cases hcomplete

theorem sound_respond (h : Genuine s r) (hnone : r.packetLen = none) (ack : Ack)
    (hincomplete : ack.complete = false) : Sound s (r.respond ack) := by
  obtain heq | heq := respond_cases ack
  · rw [heq]
    exact sound_abort ack.ruleId
  · rw [heq]
    exact sound_ack h hnone hincomplete _

theorem sound_respondWithMicFailure (h : Genuine s r) (hnone : r.packetLen = none) (ack : Ack)
    (hincomplete : ack.complete = false) : Sound s (r.respondWithMicFailure ack) := by
  rw [respondWithMicFailure]
  obtain heq | heq := respond_cases ack
  · rw [heq]
    exact sound_abort ack.ruleId
  · rw [heq]
    exact sound_ack h hnone hincomplete _

theorem sound_respondWithPacket (h : Genuine s r) (hpacket : r.packet = some s.payload)
    (ack : Ack) : Sound s ((r.respondWithPacket ack).1,
      { (r.respondWithPacket ack).2 with done := true }) := by
  rw [respondWithPacket]
  obtain heq | heq := respond_cases ack
  · rw [heq]
    exact ⟨genuine_of_empty rfl rfl, .inl rfl, by simp [abort], by simp [abort]⟩
  · rw [heq]
    obtain ⟨n, hn, -⟩ := Option.map_eq_some_iff.mp hpacket
    exact ⟨h.congr rfl rfl rfl rfl rfl rfl rfl, .inr ⟨rfl, hpacket⟩, fun _ _ => hpacket,
      fun _ _ _ => Option.isSome_iff_exists.mpr ⟨n, hn⟩⟩

/-- The slot that the final tile goes to if no regular tile behind the received ones is
missing. -/
def guessedSlot (s : FragmentSender) (r : FragmentReceiver) : Nat :=
  s.finalWindow.toNat * windowSize + regularCount (r.bitmap s.finalWindow.toNat)

theorem finalWindow_bounds (s : FragmentSender) : s.finalWindow.toNat ≤ 1 ∧
    s.finalWindow.toNat * 63 ≤ s.count - 1 ∧ s.count - 1 < s.finalWindow.toNat * 63 + 63 := by
  have := s.count_bounds
  rw [s.toNat_finalWindow]
  simp only [windowSize]
  omega

section

variable (h : Genuine s r)

include h

theorem Genuine.regularCount_spec (hw : w ≤ 1) : regularCount (r.bitmap w) ≤ 63 ∧
      (0 < regularCount (r.bitmap w) →
        (r.bitmap w).getLsbD (63 - regularCount (r.bitmap w)) = true) ∧
      ∀ j, j + regularCount (r.bitmap w) < 63 → (r.bitmap w).getLsbD j = false :=
  FragmentReceiver.regularCount_spec fun j hbit => (h.tiles w hw j hbit).1

theorem Genuine.guessedSlot_le : guessedSlot s r ≤ s.count - 1 := by
  obtain ⟨hwindow, hbase, -⟩ := finalWindow_bounds s
  obtain ⟨hle, hlast, -⟩ := h.regularCount_spec hwindow
  rw [guessedSlot]
  simp only [windowSize]
  by_cases hpos : 0 < regularCount (r.bitmap s.finalWindow.toNat)
  · have hlt := (h.tiles _ hwindow _ (hlast hpos)).2.lt
    simp only [windowSize] at hlt
    omega
  · omega

theorem Genuine.slot_free (hw : w ≤ 1) (hbit : (r.bitmap w).getLsbD j = true) :
    w * windowSize + 62 - j ≠ guessedSlot s r := by
  obtain ⟨hwindow, hbase, hlast⟩ := finalWindow_bounds s
  obtain ⟨hle, -, hfree⟩ := h.regularCount_spec hwindow
  obtain ⟨hj, htile⟩ := h.tiles w hw j hbit
  have hlt := htile.lt
  rw [guessedSlot]
  simp only [windowSize] at *
  intro heq
  by_cases hsame : w = s.finalWindow.toNat
  · subst hsame
    rw [hfree j (by omega)] at hbit
    cases hbit
  · omega

theorem Genuine.tiles_before (hfirst : ¬ (s.finalWindow = 1 ∧ r.bitmaps.1 ≠ bitmapMask))
    (hrequired : r.bitmap s.finalWindow.toNat &&&
        required (regularCount (r.bitmap s.finalWindow.toNat)) =
      required (regularCount (r.bitmap s.finalWindow.toNat)))
    (hi : i < guessedSlot s r) : Tile s r.storage i := by
  obtain ⟨hwindow, hbase, hlast⟩ := finalWindow_bounds s
  obtain ⟨hle, -, -⟩ := h.regularCount_spec hwindow
  simp only [guessedSlot, windowSize] at hi
  by_cases hbefore : i < s.finalWindow.toNat * 63
  · -- the window before the final one is full
    have hone : s.finalWindow = 1 := UInt8.toNat_inj.mp (by change _ = 1; omega)
    have hfull : r.bitmap 0 = bitmapMask := by
      by_contra hne
      exact hfirst ⟨hone, hne⟩
    have hset : (r.bitmap 0).getLsbD (62 - i) = true := by
      rw [hfull, getLsbD_bitmapMask]
      simp
      omega
    obtain ⟨-, htile⟩ := h.tiles 0 (by omega) (62 - i) hset
    simp only [windowSize] at htile
    rwa [show 0 * 63 + 62 - (62 - i) = i by omega] at htile
  · have hset := getLsbD_of_required (j := 62 - (i - s.finalWindow.toNat * 63)) hrequired
      (by omega) (by omega)
    obtain ⟨-, htile⟩ := h.tiles _ hwindow _ hset
    simp only [windowSize] at htile
    rwa [show s.finalWindow.toNat * 63 + 62 - (62 - (i - s.finalWindow.toNat * 63)) = i by
      omega] at htile

end

theorem take_of_tiles (h : ∀ i < k, Tile s bytes i) :
    bytes.take (k * tileSize) = s.payload.take (k * tileSize) := by
  apply List.ext_getElem?
  intro n
  by_cases hn : n < k * tileSize
  · rw [List.getElem?_take_of_lt hn, List.getElem?_take_of_lt hn]
    have hslot : n / tileSize < k := by
      simp only [tileSize] at *
      omega
    refine (h _ hslot).stored n ?_ ?_
    · simp only [tileSize]
      omega
    · simp only [tileSize]
      omega
  · rw [List.getElem?_eq_none (by rw [List.length_take]; omega),
      List.getElem?_eq_none (by rw [List.length_take]; omega)]

theorem store_storage (h : offset + data.length ≤ r.limit) :
    (r.store offset data).storage = overwrite r.storage offset data := by
  rw [store, dif_pos (h.trans r.limit_le)]

theorem store_fields (r : FragmentReceiver) (offset : Nat) (data : Bytes) :
    (r.store offset data).bitmaps = r.bitmaps ∧ (r.store offset data).all1 = r.all1 ∧
      (r.store offset data).all1Window = r.all1Window ∧ (r.store offset data).all1Mic = r.all1Mic ∧
      (r.store offset data).finalTile = r.finalTile ∧ (r.store offset data).finalLen = r.finalLen ∧
      (r.store offset data).packetLen = r.packetLen := by
  rw [store]
  split
  · exact ⟨rfl, rfl, rfl, rfl, rfl, rfl, rfl⟩
  · exact ⟨rfl, rfl, rfl, rfl, rfl, rfl, rfl⟩

theorem Genuine.store_guessed (h : Genuine s r) (hdata : data.length ≤ tileSize)
    (hroom : guessedSlot s r * tileSize + data.length ≤ r.limit) :
    Genuine s (r.store (guessedSlot s r * tileSize) data) := by
  obtain ⟨hbitmaps, hall1, hwindow, hmic, htile, hlen, -⟩ :=
    r.store_fields (guessedSlot s r * tileSize) data
  refine ⟨fun w hw j hbit => ?_, ?_⟩
  · simp only [bitmap, hbitmaps] at hbit
    have hfree := h.slot_free hw hbit
    obtain ⟨hj, hold⟩ := h.tiles w hw j hbit
    refine ⟨hj, hold.lt, fun n hn hlt => ?_⟩
    have hfits := hroom.trans r.limit_le
    rw [store_storage hroom, ← hold.stored n hn hlt]
    simp only [tileSize] at *
    by_cases hbefore : n < guessedSlot s r * 179
    · exact getElem?_overwrite_of_lt hfits hbefore
    · exact getElem?_overwrite_of_le hfits (by omega)
  · rw [hall1, hwindow, hmic, htile, hlen]
    exact h.all1

theorem sound_checkPacket (h : Genuine s r) (hnone : r.packetLen = none)
    (hpacket : computeMic (r.storage.take n) = r.all1Mic → r.storage.take n = s.payload)
    (ruleId : UInt8) : Sound s (r.checkPacket ruleId count n) := by
  simp only [checkPacket]
  split
  · rename_i hmic
    exact sound_respondWithPacket (r := { r with packetLen := some n })
      (h.congr rfl rfl rfl rfl rfl rfl rfl) (congrArg some (hpacket hmic)) _
  · exact sound_respondWithMicFailure h hnone _ rfl

theorem eq_payload_of_mic (hmic : NoMicCollision s.payload) (hk : k ≤ s.count - 1)
    (h : computeMic (s.payload.take (k * tileSize) ++
      s.payload.drop ((s.count - 1) * tileSize)) = s.mic) :
    s.payload.take (k * tileSize) ++ s.payload.drop ((s.count - 1) * tileSize) = s.payload := by
  obtain hlt | rfl := hk.lt_or_eq
  · rw [s.count_eq] at hlt h
    exact absurd (h.trans s.mic_eq) (hmic k hlt)
  · exact List.take_append_drop _ _

theorem sound_finalize (hmic : NoMicCollision s.payload) (h : Genuine s r)
    (hnone : r.packetLen = none) (hall1 : r.all1 = true) : Sound s r.finalize := by
  obtain ⟨hwindow, hrmic, htile, hlen⟩ := h.all1 hall1
  obtain ⟨-, -, -, hlength⟩ := s.count_bounds
  simp only [finalize]
  split
  · exact sound_respond h hnone _ rfl
  rename_i hfirst
  split
  · exact sound_respond h hnone _ rfl
  rename_i hrequired
  split
  · exact sound_abort _
  rename_i hroom
  rw [hwindow] at hfirst hrequired hroom ⊢
  change ¬ guessedSlot s r * tileSize + r.finalLen > r.limit at hroom
  change Sound s ((r.store (guessedSlot s r * tileSize) _).checkPacket _ _
    (guessedSlot s r * tileSize + r.finalLen))
  rw [htile, hlen] at *
  have hfinal : (s.payload.drop ((s.count - 1) * tileSize)).length ≤ tileSize := by
    rw [List.length_drop]
    simp only [tileSize] at *
    omega
  obtain ⟨-, -, -, hstoredMic, -, -, hstoredLen⟩ := r.store_fields (guessedSlot s r * tileSize)
    (s.payload.drop ((s.count - 1) * tileSize))
  refine sound_checkPacket (h.store_guessed hfinal (by omega)) (hstoredLen.trans hnone) ?_ _
  have hbefore := take_of_tiles fun i hi => h.tiles_before hfirst (not_not.mp hrequired) hi
  rw [store_storage (by omega), take_overwrite (by have := r.limit_le; omega), hbefore, hstoredMic,
    hrmic]
  exact eq_payload_of_mic hmic h.guessedSlot_le

theorem bitmap_setBitmap (r : FragmentReceiver) (hw : w ≤ 1) (hw' : w' ≤ 1) (b : BitVec 64) :
    (r.setBitmap w' b).bitmap w = if w = w' then b else r.bitmap w := by
  simp only [bitmap, setBitmap]
  by_cases hzero : w = 0 <;> by_cases hzero' : w' = 0
  · simp [hzero, hzero']
  · simp [hzero, hzero', Ne.symm hzero']
  · simp [hzero, hzero']
  · simp [hzero', show w = w' by omega]

theorem getElem?_store_tile (hi : i + 1 < s.count) (hroom : (i + 1) * tileSize ≤ r.limit)
    (h : r.storage[n]? = s.payload[n]? ∨ (i * tileSize ≤ n ∧ n < (i + 1) * tileSize)) :
    (r.store (i * tileSize)
      (s.payload.extract (i * tileSize) ((i + 1) * tileSize))).storage[n]? = s.payload[n]? := by
  obtain ⟨-, -, hlast, -⟩ := s.count_bounds
  have hlength : (s.payload.extract (i * tileSize) ((i + 1) * tileSize)).length = tileSize := by
    rw [List.extract, List.length_take, List.length_drop]
    simp only [tileSize] at *
    omega
  have hlimit := r.limit_le
  have hend : (i + 1) * tileSize = i * tileSize + tileSize := Nat.succ_mul i tileSize
  rw [store_storage (by omega)]
  by_cases hin : i * tileSize ≤ n ∧ n < (i + 1) * tileSize
  · rw [getElem?_overwrite_mid (by omega) hin.1 (by omega), List.extract,
      List.getElem?_take_of_lt (by omega), List.getElem?_drop]
    congr 1
    omega
  · have hold := h.resolve_right hin
    by_cases hbefore : n < i * tileSize
    · rw [getElem?_overwrite_of_lt (by omega) hbefore, hold]
    · rw [getElem?_overwrite_of_le (by omega) (by omega), hold]

section

variable (h : Genuine s r)

include h

theorem Genuine.receive_tile (hi : i + 1 < s.count) (hw : w ≤ 1) (hj : j ≤ 62)
    (hij : w * windowSize + 62 - j = i) (hroom : (i + 1) * tileSize ≤ r.limit) :
    Genuine s ((r.store (i * tileSize)
      (s.payload.extract (i * tileSize) ((i + 1) * tileSize))).setBitmap w
        (r.bitmap w ||| 1#64 <<< j)) := by
  obtain ⟨hbitmaps, hall1, hwindow, hmic, htile, hlen, -⟩ := r.store_fields (i * tileSize)
    (s.payload.extract (i * tileSize) ((i + 1) * tileSize))
  refine ⟨fun w' hw' j' hbit => ?_, ?_⟩
  · have hcases : (r.bitmap w').getLsbD j' = true ∨ (w' = w ∧ j' = j) := by
      rw [bitmap_setBitmap _ hw' hw] at hbit
      split at hbit
      · rename_i hsame
        rw [BitVec.getLsbD_or, ← BitVec.twoPow_eq, BitVec.getLsbD_twoPow, Bool.or_eq_true,
          Bool.and_eq_true, decide_eq_true_iff, decide_eq_true_iff] at hbit
        exact hbit.imp (fun hold => hsame ▸ hold) fun hnew => ⟨hsame, hnew.2.symm⟩
      · simp only [bitmap, hbitmaps] at hbit
        exact .inl hbit
    obtain hold | ⟨rfl, rfl⟩ := hcases
    · obtain ⟨hj', hold⟩ := h.tiles w' hw' j' hold
      exact ⟨hj', hold.lt, fun n hn hlt =>
        getElem?_store_tile hi hroom (.inl (hold.stored n hn hlt))⟩
    · rw [hij]
      exact ⟨hj, hi, fun n hn hlt => getElem?_store_tile hi hroom (.inr ⟨hn, hlt⟩)⟩
  · change (r.store _ _).all1 = true → _
    rw [hall1]
    intro hset
    obtain ⟨h₁, h₂, h₃, h₄⟩ := h.all1 hset
    exact ⟨hwindow.trans h₁, hmic.trans h₂, by
      change (r.store _ _).finalTile.take (r.store _ _).finalLen = _
      rw [htile, hlen, h₃], hlen.trans h₄⟩

theorem sound_receiveTile (hnone : r.packetLen = none)
    (hf : s.RegularTile i f) : Sound s (r.receiveTile f) := by
  obtain ⟨-, hcount, -, -⟩ := s.count_bounds
  have hi := hf.lt
  have hordinal : f.window.toNat * windowSize + 62 - f.fcn.toNat = i := by
    rw [hf.window, hf.fcn]
    simp only [windowSize]
    omega
  simp only [receiveTile]
  split
  · exact sound_abort _
  split
  · exact sound_abort _
  rw [hordinal, hf.payload]
  split
  · exact sound_abort _
  split
  · split
    · exact sound_abort _
    · exact sound_default h (.inl hnone)
  · refine sound_default (h.receive_tile hi ?_ ?_ hordinal (by omega)) (.inl ?_)
    · rw [hf.window]
      simp only [windowSize]
      omega
    · rw [hf.fcn]
      omega
    · exact (r.store_fields _ _).2.2.2.2.2.2.trans hnone

theorem sound_receiveAll1 (hmic : NoMicCollision s.payload)
    (hnone : r.packetLen = none) (hf : s.FinalTile f) : Sound s (r.receiveAll1 f) := by
  simp only [receiveAll1]
  split
  · exact sound_abort _
  split
  · rename_i hall1
    split
    · exact sound_abort _
    · exact sound_finalize hmic h hnone hall1
  split
  · exact sound_abort _
  refine sound_finalize hmic ⟨h.tiles, fun _ => ⟨hf.window, hf.mic, ?_, by rw [hf.payload]⟩⟩ hnone rfl
  have htake : (overwrite r.finalTile 0 f.payload).take (0 + f.payload.length) =
      r.finalTile.take 0 ++ f.payload := take_overwrite (Nat.zero_le _)
  rw [Nat.zero_add, List.take_zero, List.nil_append] at htake
  rw [← hf.payload]
  exact htake

theorem sound_receiveValid (hmic : NoMicCollision s.payload)
    (hnone : r.packetLen = none) (hf : s.getFragment i = some f) : Sound s (r.receiveValid f) := by
  obtain ⟨-, hcases⟩ := s.getFragment_cases hf
  have hgenuine : Genuine s { r with ruleId := some f.ruleId } :=
    h.congr rfl rfl rfl rfl rfl rfl rfl
  simp only [receiveValid]
  split
  · exact sound_abort _
  obtain htile | hfinal := hcases
  · rw [htile.regular]
    exact sound_receiveTile hgenuine hnone htile
  · rw [hfinal.all1]
    exact sound_receiveAll1 hgenuine hmic hnone hfinal

theorem reopened (hdelivered : Delivered s r) : Genuine s (if r.done then r.reset else r) ∧
      (if r.done then r.reset else r).packetLen = none := by
  split
  · exact ⟨genuine_of_empty rfl rfl, rfl⟩
  · rename_i hdone
    exact ⟨h, hdelivered.resolve_right fun hboth => hdone hboth.1⟩

theorem sound_receive (hmic : NoMicCollision s.payload)
    (hnone : r.packetLen = none) (hf : s.getFragment i = some f) : Sound s (r.receive f) := by
  rw [receive]
  split
  · obtain ⟨hopen, hpacket⟩ := reopened h (.inl hnone)
    exact sound_receiveValid hopen hmic hpacket hf
  · split
    · exact sound_default h (.inl hnone)
    · exact sound_abort _

theorem sound_receiveAckRequest (hmic : NoMicCollision s.payload)
    (hnone : r.packetLen = none) (ruleId : UInt8) : Sound s (r.receiveAckRequest ruleId) := by
  have hgenuine : Genuine s { r with ruleId := some ruleId } :=
    h.congr rfl rfl rfl rfl rfl rfl rfl
  simp only [receiveAckRequest]
  split
  · exact sound_abort _
  split
  · exact sound_finalize hmic hgenuine hnone ‹_›
  · exact sound_respond hgenuine hnone _ rfl

end

structure SoundCall (s : FragmentSender) (p : Except FragmentError ReceiverResult × FragmentReceiver) :
    Prop where
  genuine : Genuine s p.2
  delivered : Delivered s p.2
  sound : ∀ result, p.1 = .ok result → Sound s (result, p.2)

theorem soundCall_error (h : Genuine s r) (hdelivered : Delivered s r) :
    SoundCall s (.error error, r) :=
  ⟨h, hdelivered, by simp⟩

theorem Sound.call (h : Sound s p) : SoundCall s (p.map .ok id) := by
  refine ⟨h.genuine, h.delivered, ?_⟩
  rintro _ ⟨⟩
  exact h

theorem fragment_of_emits (hemits : s.Emits data)
    (hrequest : (ackRequest (data.getD 0 0) (data.getD 1 0 >>> 7)).writeTo 3 ≠ .ok data)
    (habort : (senderAbort (data.getD 0 0)).writeTo 3 ≠ .ok data) :
    ∃ i f, s.getFragment i = some f ∧ Fragment.fromBytes data tileSize = .ok f := by
  cases hemits with
  | @fragment i _ f hget hwrite =>
    exact ⟨i, f, hget,
      Fragment.fromBytes_writeTo hwrite (Fragment.writeTo_ok hwrite).1.length_payload_le⟩
  | ackRequest hwrite =>
    obtain ⟨rfl, hback⟩ := writeTo_ackRequest hwrite
    refine absurd ?_ hrequest
    simp only [List.getD_cons_zero, List.getD_cons_succ, hback]
    exact writeTo_of_le hwrite (by simp)
  | abort hwrite =>
    obtain ⟨-, rfl⟩ := write_ok hwrite
    exact absurd (writeTo_of_le hwrite (by simp)) habort

theorem soundCall_receiveMessage (hmic : NoMicCollision s.payload) (h : Genuine s r)
    (hdelivered : Delivered s r) (hemits : s.Emits data)
    (habort : (senderAbort (data.getD 0 0)).writeTo 3 ≠ .ok data) :
    SoundCall s (r.receiveMessage (data.getD 0 0) data) := by
  obtain ⟨hopen, hnone⟩ := reopened h hdelivered
  simp only [receiveMessage]
  split
  · exact soundCall_error h hdelivered
  rename_i hrequest
  split
  · exact (sound_receiveAckRequest hopen hmic hnone _).call
  rename_i hother
  have hother : (ackRequest (data.getD 0 0) (data.getD 1 0 >>> 7)).writeTo 3 ≠ .ok data :=
    fun heq => hother (Except.ok.inj (heq.symm.trans hrequest))
  obtain ⟨_, _, hget, hparse⟩ := fragment_of_emits hemits hother habort
  rw [hparse]
  split
  · exact soundCall_error h hdelivered
  · exact soundCall_error h hdelivered
  · exact (sound_receive hopen hmic hnone hget).call

theorem soundCall_receiveBytes (hmic : NoMicCollision s.payload) (h : Genuine s r)
    (hdelivered : Delivered s r) (hemits : s.Emits data) : SoundCall s (r.receiveBytes data) := by
  simp only [receiveBytes]
  split
  · exact soundCall_error h hdelivered
  split
  · exact soundCall_error h hdelivered
  · exact soundCall_error h hdelivered
  rename_i senderAbort _ habort
  split
  · refine ⟨genuine_of_empty rfl rfl, .inl rfl, ?_⟩
    rintro _ ⟨⟩
    exact ⟨genuine_of_empty rfl rfl, .inl rfl, by simp, by simp⟩
  · rename_i hother
    exact soundCall_receiveMessage hmic h hdelivered hemits fun heq =>
      hother (Except.ok.inj (heq.symm.trans habort))

end FragmentReceiver

end Lichen.Schc
