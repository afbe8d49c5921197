import Lichen.Core.Airtime

namespace Lichen.Core

def durations (records : List TxRecord) : Nat := (records.map (·.durationMs.toNat)).sum

@[simp] theorem durations_nil : durations [] = 0 := rfl

@[simp] theorem durations_cons :
    durations (record :: records) = record.durationMs.toNat + durations records :=
  List.sum_cons

theorem inWindow_le_durations (records : List TxRecord) (start : Nat) :
    inWindow records start ≤ durations records := by
  induction records with
  | nil => exact le_rfl
  | cons record records ih =>
    rw [inWindow_cons, durations_cons]
    exact Nat.add_le_add TxRecord.counted_le ih

/-- The record among the others at which the durations add up to what is needed. -/
structure Reaches (records : List TxRecord) (needed : Nat) (before : List TxRecord)
    (record : TxRecord) (after : List TxRecord) : Prop where
  eq : records = before ++ record :: after
  lt : durations before < needed
  le : needed ≤ durations before + record.durationMs.toNat

theorem durations_lt_or_reaches (records : List TxRecord) (h : 0 < needed) :
    durations records < needed ∨ ∃ before record after,
      Reaches records needed before record after := by
  induction records generalizing needed with
  | nil => exact .inl h
  | cons record records ih =>
    obtain hreach | hlt := Nat.lt_or_ge record.durationMs.toNat needed |>.symm
    · exact .inr ⟨[], record, records, rfl, h, by simpa using hreach⟩
    · obtain hall | ⟨before, next, after, rfl, hbefore, hreach⟩ := ih (Nat.sub_pos_of_lt hlt)
      · left
        rw [durations_cons]
        omega
      · refine .inr ⟨record :: before, next, after, rfl, ?_, ?_⟩
        · rw [durations_cons]
          omega
        · rw [durations_cons]
          omega

/-- No transmission starts before the one ahead of it has ended, and the end of none is near that
of time. -/
structure Sequential (records : List TxRecord) : Prop where
  apart : records.Pairwise fun a b => a.txEnd ≤ b.timestampMs.toNat
  early : ∀ record ∈ records,
    record.timestampMs.toNat + record.durationMs.toNat + windowMs < 2 ^ 64 - 1

namespace Sequential

theorem of_sublist (h : Sequential records) (hsub : List.Sublist records' records) :
    Sequential records' :=
  ⟨h.apart.sublist hsub, fun record hmem => h.early record (hsub.subset hmem)⟩

theorem txEnd_eq (h : Sequential records) (hmem : record ∈ records) :
    record.txEnd = record.timestampMs.toNat + record.durationMs.toNat := by
  have := h.early record hmem
  exact Nat.min_eq_left (by omega)

section

variable (h : Sequential (before ++ record :: after))

include h

/-- From a time within a transmission on, the rest of it and the later ones are on the air. -/
theorem inWindow_eq (hstart : record.timestampMs.toNat ≤ start) (hend : start ≤ record.txEnd) :
    inWindow (before ++ record :: after) start = record.txEnd - start + durations after := by
  have hmem : record ∈ before ++ record :: after := List.mem_append_right _ List.mem_cons_self
  have hearly := h.early record hmem
  have htxEnd := h.txEnd_eq hmem
  obtain ⟨-, htail, hcross⟩ := List.pairwise_append.mp h.apart
  have hbefore : inWindow before start = 0 := by
    refine List.sum_eq_zero fun _ hcounted => ?_
    obtain ⟨other, hother, rfl⟩ := List.mem_map.mp hcounted
    exact TxRecord.counted_of_txEnd_le
      ((hcross other hother record List.mem_cons_self).trans hstart) (by omega)
  have hafter : inWindow after start = durations after :=
    congrArg List.sum (List.map_congr_left fun other hother =>
      TxRecord.counted_of_le (hend.trans ((List.pairwise_cons.mp htail).1 other hother)))
  have hcounted : record.counted start = record.txEnd - start := by
    obtain hlt | hge := Nat.lt_or_ge record.timestampMs.toNat start
    · exact TxRecord.counted_of_lt hlt
    · rw [TxRecord.counted_of_le hge]
      omega
  rw [inWindow_append, inWindow_cons, hbefore, hafter, hcounted, Nat.zero_add]

theorem lt_txEnd (hhead : ∀ first ∈ (before ++ record :: after).head?, start < first.txEnd) :
    start < record.txEnd := by
  cases before with
  | nil => exact hhead record rfl
  | cons first before =>
    have hlt := hhead first rfl
    have hle := (List.pairwise_cons.mp h.apart).1 record (by simp)
    have htxEnd := h.txEnd_eq (List.mem_append_right _ List.mem_cons_self)
    omega

end

end Sequential

namespace DutyCycleTracker

theorem agesOut_of_reach (hneeded : needed < 2 ^ 32) (before : List TxRecord)
    (record : TxRecord) (after : List TxRecord) (hbefore : freed + durations before < needed)
    (hreach : needed ≤ freed + durations before + record.durationMs.toNat) :
    agesOut needed freed (before ++ record :: after) =
      some (saturate64 (record.txEnd + windowMs)) := by
  induction before generalizing freed with
  | nil =>
    rw [durations_nil] at hreach
    rw [List.nil_append, agesOut, saturate32, if_pos (by omega)]
  | cons first before ih =>
    rw [durations_cons] at hbefore hreach
    have hfreed : saturate32 (freed + first.durationMs.toNat) = freed + first.durationMs.toNat :=
      Nat.min_eq_left (by omega)
    rw [List.cons_append, agesOut, hfreed, if_neg (by omega), ih (by omega) (by omega)]

theorem agesOut_of_lt (hneeded : needed < 2 ^ 32) (records : List TxRecord)
    (h : freed + durations records < needed) : agesOut needed freed records = none := by
  induction records generalizing freed with
  | nil => rfl
  | cons record records ih =>
    rw [durations_cons] at h
    have hfreed : saturate32 (freed + record.durationMs.toNat) = freed + record.durationMs.toNat :=
      Nat.min_eq_left (by omega)
    rw [agesOut, hfreed, if_neg (by omega), ih (by omega)]

variable (tracker : DutyCycleTracker N) {now : UInt64} {durationMs : UInt32}

def Fits (start : Nat) (durationMs : UInt32) : Prop :=
  durationMs.toNat = 0 ∨ inWindow tracker.records start + durationMs.toNat ≤ tracker.limit.maxTxMs

theorem Fits.mono {tracker : DutyCycleTracker N} (hle : start ≤ start')
    (h : tracker.Fits start durationMs) : tracker.Fits start' durationMs :=
  h.imp_right ((Nat.add_le_add_right (inWindow_anti hle) _).trans ·)

theorem canTransmit_iff_fits (hdwell : tracker.limit.withinDwell durationMs) (now : UInt64) :
    (tracker.canTransmit now durationMs).1 = true ↔ tracker.Fits (windowStart now) durationMs := by
  have hmax := tracker.limit.maxTxMs_le
  rw [canTransmit_fst, Fits]
  simp only [hdwell, true_and, saturate32]
  rw [windowMs] at hmax
  omega

/-- From `now` on the transmission is allowed first at `answer`; `u64::MAX` stands for never. -/
def IsEarliest (now : UInt64) (durationMs : UInt32) (answer : Nat) : Prop :=
  (∀ t : UInt64, t.toNat = answer → answer < 2 ^ 64 - 1 →
    (tracker.canTransmit t durationMs).1 = true ∧
      ∀ t' : UInt64, now ≤ t' → t' < t → (tracker.canTransmit t' durationMs).1 = false) ∧
  (answer = 2 ^ 64 - 1 → tracker.limit.maxTxMs < durationMs.toNat)

/-- The transmission fits with the last millisecond of `record` gone from the window, not before. -/
def FreedBy (now : UInt64) (durationMs : UInt32) (record : TxRecord) : Prop :=
  (record.txEnd + windowMs < 2 ^ 64 - 1 ∧ tracker.Fits record.txEnd durationMs ∧
    (now.toNat < record.txEnd + windowMs → ¬tracker.Fits (record.txEnd - 1) durationMs)) ∨
  (2 ^ 64 - 1 ≤ record.txEnd + windowMs ∧ tracker.limit.maxTxMs < durationMs.toNat)

theorem isEarliest_max : tracker.IsEarliest now durationMs (2 ^ 64 - 1) ↔
    tracker.limit.maxTxMs < durationMs.toNat :=
  ⟨fun h => h.2 rfl, fun h => ⟨fun _ _ hlt => absurd hlt (Nat.lt_irrefl _), fun _ => h⟩⟩

theorem windowStart_le_pred (h : t.toNat < stop + windowMs) : windowStart t ≤ stop - 1 := by
  rw [windowStart, windowMs] at *
  omega

theorem isEarliest_add_window (hdwell : tracker.limit.withinDwell durationMs)
    (hstop : stop + windowMs < 2 ^ 64 - 1) :
    tracker.IsEarliest now durationMs (stop + windowMs) ↔ tracker.Fits stop durationMs ∧
      (now.toNat < stop + windowMs → ¬tracker.Fits (stop - 1) durationMs) := by
  constructor
  · rintro ⟨h, -⟩
    have hnat : (UInt64.ofNat (stop + windowMs)).toNat = stop + windowMs :=
      UInt64.toNat_ofNat'.trans (Nat.mod_eq_of_lt (by omega))
    have hnat' : (UInt64.ofNat (stop + windowMs - 1)).toNat = stop + windowMs - 1 :=
      UInt64.toNat_ofNat'.trans (Nat.mod_eq_of_lt (by omega))
    obtain ⟨hallowed, hbefore⟩ := h _ hnat hstop
    constructor
    · rw [tracker.canTransmit_iff_fits hdwell, windowStart, hnat, Nat.add_sub_cancel] at hallowed
      exact hallowed
    · intro hnow hfits
      have hpred := hbefore (UInt64.ofNat (stop + windowMs - 1))
        (UInt64.le_iff_toNat_le.mpr (by omega)) (UInt64.lt_iff_toNat_lt.mpr (by omega))
      rw [← Bool.not_eq_true, tracker.canTransmit_iff_fits hdwell, windowStart, hnat',
        Nat.sub_right_comm, Nat.add_sub_cancel] at hpred
      exact hpred hfits
  · rintro ⟨hfits, hnot⟩
    refine ⟨fun t ht _ => ⟨?_, fun t' hle hlt => ?_⟩, fun h => absurd h hstop.ne⟩
    · rw [tracker.canTransmit_iff_fits hdwell, windowStart, ht, Nat.add_sub_cancel]
      exact hfits
    · have hlt' : t'.toNat < stop + windowMs := ht ▸ UInt64.lt_iff_toNat_lt.mp hlt
      rw [← Bool.not_eq_true, tracker.canTransmit_iff_fits hdwell]
      intro hfits'
      exact hnot ((UInt64.le_iff_toNat_le.mp hle).trans_lt hlt')
        (hfits'.mono (windowStart_le_pred hlt'))

theorem isEarliest_saturate64 (hdwell : tracker.limit.withinDwell durationMs) (record : TxRecord) :
    tracker.IsEarliest now durationMs (saturate64 (record.txEnd + windowMs)) ↔
      tracker.FreedBy now durationMs record := by
  rw [FreedBy]
  obtain hlt | hge := Nat.lt_or_ge (record.txEnd + windowMs) (2 ^ 64 - 1)
  · have hanswer : saturate64 (record.txEnd + windowMs) = record.txEnd + windowMs :=
      Nat.min_eq_left hlt.le
    rw [hanswer, tracker.isEarliest_add_window hdwell hlt]
    simp only [hlt, true_and, Nat.not_le.mpr hlt, false_and, or_false]
  · have hanswer : saturate64 (record.txEnd + windowMs) = 2 ^ 64 - 1 := Nat.min_eq_right hge
    rw [hanswer, isEarliest_max]
    simp only [hge, true_and, Nat.not_lt.mpr hge, false_and, false_or]

/-- The airtime in the window with that of the transmission. -/
def wanted (now : UInt64) (durationMs : UInt32) : Nat :=
  inWindow tracker.records (windowStart now) + durationMs.toNat

def needed (now : UInt64) (durationMs : UInt32) : Nat :=
  saturate32 (tracker.wanted now durationMs) - tracker.limit.maxTxMs

def AnswersEarliest (now : UInt64) (durationMs : UInt32) : Prop :=
  (tracker.nextTxAvailableMs now durationMs).2.IsEarliest now durationMs
    (tracker.nextTxAvailableMs now durationMs).1

theorem nextTxAvailableMs_eq (hdwell : tracker.limit.withinDwell durationMs) :
    tracker.nextTxAvailableMs now durationMs =
      if tracker.wanted now durationMs ≤ tracker.limit.maxTxMs then
        (now.toNat, tracker.evictStale now)
      else ((agesOut (tracker.needed now durationMs) 0 (tracker.evictStale now).records).getD
        (2 ^ 64 - 1), tracker.evictStale now) := by
  have hmax := tracker.limit.maxTxMs_le
  have hwanted : saturate32 ((tracker.evictStale now).totalTxInWindow now + durationMs.toNat) =
      saturate32 (tracker.wanted now durationMs) := by
    rw [totalTxInWindow_evictStale, saturate32_add, wanted]
  have hfits : saturate32 (tracker.wanted now durationMs) ≤ tracker.limit.maxTxMs ↔
      tracker.wanted now durationMs ≤ tracker.limit.maxTxMs := by
    rw [windowMs] at hmax
    rw [saturate32]
    omega
  have hlimit : (tracker.evictStale now).limit = tracker.limit := rfl
  simp only [nextTxAvailableMs, hwanted, hlimit, hdwell, Bool.not_true, Bool.false_eq_true, if_false,
    hfits, needed]

theorem needed_lt : tracker.needed now durationMs < 2 ^ 32 := by
  rw [needed, saturate32]
  omega

theorem needed_pos (h : tracker.limit.maxTxMs < tracker.wanted now durationMs) :
    0 < tracker.needed now durationMs := by
  have hmax := tracker.limit.maxTxMs_le
  rw [windowMs] at hmax
  rw [needed, saturate32]
  omega

theorem lt_of_durations_lt
    (h : durations (tracker.evictStale now).records < tracker.needed now durationMs) :
    tracker.limit.maxTxMs < durationMs.toNat := by
  have hwindow := inWindow_le_durations (tracker.evictStale now).records (windowStart now)
  rw [inWindow_evictStale _ le_rfl windowStart_lt] at hwindow
  rw [needed, wanted, saturate32] at h
  omega

theorem answersEarliest_of_fits (hdwell : tracker.limit.withinDwell durationMs)
    (hfits : tracker.wanted now durationMs ≤ tracker.limit.maxTxMs) :
    tracker.AnswersEarliest now durationMs ↔ now.toNat < 2 ^ 64 - 1 := by
  rw [AnswersEarliest, tracker.nextTxAvailableMs_eq hdwell, if_pos hfits]
  have hallowed : ((tracker.evictStale now).canTransmit now durationMs).1 = true := by
    rw [(tracker.evictStale now).canTransmit_iff_fits hdwell, Fits,
      tracker.inWindow_evictStale le_rfl windowStart_lt]
    exact .inr hfits
  constructor
  · intro h
    refine Nat.lt_of_le_of_ne (Nat.le_pred_of_lt now.toNat_lt) fun hnow => ?_
    exact absurd ((h.2 hnow).trans_le (Nat.le_add_left ..)) (Nat.not_lt.mpr hfits)
  · intro hnow
    refine ⟨fun t ht _ => ?_, fun h => absurd h hnow.ne⟩
    obtain rfl : t = now := UInt64.toNat.inj ht
    exact ⟨hallowed, fun t' hle hlt => absurd hlt (UInt64.not_lt.mpr hle)⟩

theorem freedBy_iff (h : Sequential tracker.records)
    (hrecords : tracker.records = before ++ record :: after) (hpos : 0 < record.durationMs.toNat)
    (hnow : now.toNat < record.txEnd + windowMs) : tracker.FreedBy now durationMs record ↔
      0 < durationMs.toNat ∧ durations after + durationMs.toNat = tracker.limit.maxTxMs := by
  have hmem : record ∈ tracker.records := by simp [hrecords]
  have htxEnd := h.txEnd_eq hmem
  have hearly := h.early record hmem
  rw [hrecords] at h
  rw [FreedBy, Fits, Fits, hrecords, h.inWindow_eq (by omega) le_rfl,
    h.inWindow_eq (by omega) (by omega)]
  omega

section

variable (hdwell : tracker.limit.withinDwell durationMs)
  (hfull : tracker.limit.maxTxMs < tracker.wanted now durationMs)

include hdwell hfull

theorem answersEarliest_of_lt
    (h : durations (tracker.evictStale now).records < tracker.needed now durationMs) :
    tracker.AnswersEarliest now durationMs := by
  rw [AnswersEarliest, tracker.nextTxAvailableMs_eq hdwell, if_neg (Nat.not_le.mpr hfull),
    agesOut_of_lt tracker.needed_lt _ (by omega)]
  exact (isEarliest_max _).mpr (tracker.lt_of_durations_lt h)

variable (hreaches : Reaches (tracker.evictStale now).records (tracker.needed now durationMs) before
  record after)

include hreaches

theorem answersEarliest_of_reaches : tracker.AnswersEarliest now durationMs ↔
    (tracker.evictStale now).FreedBy now durationMs record := by
  obtain ⟨hrecords, hbefore, hreach⟩ := hreaches
  rw [AnswersEarliest, tracker.nextTxAvailableMs_eq hdwell, if_neg (Nat.not_le.mpr hfull), hrecords,
    agesOut_of_reach tracker.needed_lt before record after (by omega) (by omega), Option.getD_some,
    (tracker.evictStale now).isEarliest_saturate64 hdwell]

theorem answersEarliest_of_sequential (hseq : Sequential tracker.records) :
    tracker.AnswersEarliest now durationMs ↔
      0 < durationMs.toNat ∧ durations after + durationMs.toNat = tracker.limit.maxTxMs := by
  have hevicted : Sequential (tracker.evictStale now).records :=
    hseq.of_sublist (List.dropWhile_sublist _)
  rw [tracker.answersEarliest_of_reaches hdwell hfull hreaches]
  obtain ⟨hrecords, hbefore, hreach⟩ := hreaches
  refine (tracker.evictStale now).freedBy_iff hevicted hrecords (by omega) ?_
  rw [hrecords] at hevicted
  have hlive : windowStart now < record.txEnd := by
    refine hevicted.lt_txEnd fun first hfirst => ?_
    have hnot := List.head?_dropWhile_not (fun record : TxRecord =>
      decide (record.txEnd ≤ windowStart now)) tracker.records
    rw [← hrecords] at hfirst
    rw [show (tracker.records.dropWhile _).head? = some first from hfirst] at hnot
    exact Nat.lt_of_not_le (of_decide_eq_false hnot)
  rw [windowStart] at hlive
  omega

end

end DutyCycleTracker

end Lichen.Core
