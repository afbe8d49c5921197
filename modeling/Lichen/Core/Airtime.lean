import Mathlib.Algebra.BigOperators.Group.List.Basic
import Mathlib.Algebra.Order.BigOperators.Group.List
import Mathlib.Data.Real.Basic
import Mathlib.Tactic.Linarith
import Lichen.Core.DutyCycle
import Lichen.Lib.Run

namespace Lichen.Core

open Lichen.Lib

theorem windowStart_mono (h : now ≤ now') : windowStart now ≤ windowStart now' :=
  Nat.sub_le_sub_right h windowMs

theorem windowStart_lt : windowStart now < 2 ^ 64 - 1 := by
  have hnow := now.toNat_lt
  rw [windowStart, windowMs]
  omega

namespace TxRecord

variable {record : TxRecord} {start : Nat}

theorem txEnd_le : record.txEnd ≤ record.timestampMs.toNat + record.durationMs.toNat :=
  Nat.min_le_left _ _

theorem counted_of_le (h : start ≤ record.timestampMs.toNat) :
    record.counted start = record.durationMs.toNat :=
  if_pos h

theorem counted_of_lt (h : record.timestampMs.toNat < start) :
    record.counted start = record.txEnd - start := by
  have hend := record.txEnd_le
  have hduration := record.durationMs.toNat_lt
  rw [counted, if_neg (Nat.not_le.mpr h)]
  split
  · exact Nat.mod_eq_of_lt (by omega)
  · omega

theorem counted_le : record.counted start ≤ record.durationMs.toNat := by
  have hend := record.txEnd_le
  obtain h | h := Nat.lt_or_ge record.timestampMs.toNat start
  · rw [counted_of_lt h]
    omega
  · exact (counted_of_le h).le

theorem counted_anti (h : start ≤ start') : record.counted start' ≤ record.counted start := by
  obtain hstart | hstart := Nat.lt_or_ge record.timestampMs.toNat start
  · rw [counted_of_lt hstart, counted_of_lt (hstart.trans_le h)]
    exact Nat.sub_le_sub_left h _
  · rw [counted_of_le hstart]
    exact counted_le

theorem counted_of_txEnd_le (h : record.txEnd ≤ start) (hstart : start < 2 ^ 64 - 1) :
    record.counted start = 0 := by
  obtain hlt | hle := Nat.lt_or_ge record.timestampMs.toNat start
  · rw [counted_of_lt hlt]
    exact Nat.sub_eq_zero_of_le h
  · rw [counted_of_le hle]
    rw [txEnd, saturate64] at h
    omega

end TxRecord

def inWindow (records : List TxRecord) (start : Nat) : Nat := (records.map (·.counted start)).sum

@[simp] theorem inWindow_cons :
    inWindow (record :: records) start = record.counted start + inWindow records start :=
  List.sum_cons

theorem inWindow_append :
    inWindow (records ++ records') start = inWindow records start + inWindow records' start := by
  rw [inWindow, List.map_append, List.sum_append]
  rfl

theorem inWindow_anti (h : start ≤ start') : inWindow records start' ≤ inWindow records start := by
  induction records with
  | nil => exact le_rfl
  | cons record records ih =>
    rw [inWindow_cons, inWindow_cons]
    exact Nat.add_le_add (TxRecord.counted_anti h) ih

theorem inWindow_ite_cons (b : Bool) (record : TxRecord) (records : List TxRecord) (start : Nat) :
    inWindow (if b then record :: records else records) start =
      inWindow records start + inWindow (if b then [record] else []) start := by
  cases b with
  | true => exact Nat.add_comm _ _
  | false => rfl

namespace DutyCycleTracker

variable {N : Nat} (tracker : DutyCycleTracker N)

theorem foldl_saturate32 (records : List TxRecord) (start total : Nat) :
    records.foldl (fun total record => saturate32 (total + record.counted start))
      (saturate32 total) = saturate32 (total + inWindow records start) := by
  induction records generalizing total with
  | nil => rfl
  | cons record records ih =>
    rw [List.foldl_cons, saturate32_add, ih, inWindow_cons, Nat.add_assoc]

theorem totalTxInWindow_eq :
    tracker.totalTxInWindow now = saturate32 (inWindow tracker.records (windowStart now)) := by
  have h := foldl_saturate32 tracker.records (windowStart now) 0
  rw [Nat.zero_add] at h
  exact h

theorem inWindow_dropWhile (h : first ≤ start) (hstart : start < 2 ^ 64 - 1)
    (records : List TxRecord) :
    inWindow (records.dropWhile (·.txEnd ≤ first)) start = inWindow records start := by
  induction records with
  | nil => rfl
  | cons record records ih =>
    rw [List.dropWhile_cons]
    split
    · rename_i hstale
      rw [ih, inWindow_cons,
        TxRecord.counted_of_txEnd_le ((of_decide_eq_true hstale).trans h) hstart, Nat.zero_add]
    · rfl

theorem inWindow_evictStale (h : windowStart now ≤ start) (hstart : start < 2 ^ 64 - 1) :
    inWindow (tracker.evictStale now).records start = inWindow tracker.records start :=
  inWindow_dropWhile h hstart tracker.records

theorem totalTxInWindow_evictStale : (tracker.evictStale now).totalTxInWindow now =
    saturate32 (inWindow tracker.records (windowStart now)) := by
  rw [totalTxInWindow_eq, tracker.inWindow_evictStale le_rfl windowStart_lt]

theorem canTransmit_fst :
    (tracker.canTransmit now durationMs).1 = true ↔ tracker.limit.withinDwell durationMs ∧
      durationMs.toNat ≤
        tracker.limit.maxTxMs - saturate32 (inWindow tracker.records (windowStart now)) := by
  rw [canTransmit]
  split
  · rename_i hdwell
    simp only [remainingMs, totalTxInWindow_evictStale, ge_iff_le, decide_eq_true_iff, hdwell,
      true_and]
    exact Iff.rfl
  · rename_i hdwell
    simp [hdwell]

theorem inWindow_canTransmit (h : windowStart now ≤ start) (hstart : start < 2 ^ 64 - 1) :
    (tracker.canTransmit now durationMs).2.limit = tracker.limit ∧
      inWindow (tracker.canTransmit now durationMs).2.records start =
        inWindow tracker.records start := by
  rw [canTransmit]
  split
  · exact ⟨rfl, tracker.inWindow_evictStale h hstart⟩
  · exact ⟨rfl, rfl⟩

theorem inWindow_recordTx
    (h : windowStart record.timestampMs ≤ start) (hstart : start < 2 ^ 64 - 1) :
    let tried := tracker.recordTx record.timestampMs record.durationMs
    tried.2.limit = tracker.limit ∧ inWindow tried.2.records start =
      inWindow tracker.records start + inWindow (if tried.1 then [record] else []) start := by
  dsimp only [recordTx]
  split
  · refine ⟨rfl, ?_⟩
    rw [if_pos rfl, inWindow_append, tracker.inWindow_evictStale h hstart]
  · exact ⟨rfl, tracker.inWindow_evictStale h hstart⟩

theorem inWindow_tryRecordTx
    (h : windowStart record.timestampMs ≤ start) (hstart : start < 2 ^ 64 - 1) :
    let tried := tracker.tryRecordTx record.timestampMs record.durationMs
    tried.2.limit = tracker.limit ∧ inWindow tried.2.records start =
      inWindow tracker.records start + inWindow (if tried.1 then [record] else []) start := by
  obtain ⟨hlimit, hsum⟩ := tracker.inWindow_canTransmit h hstart
  dsimp only [tryRecordTx]
  split
  · obtain ⟨hlimit', hsum'⟩ := inWindow_recordTx
      (tracker.canTransmit record.timestampMs record.durationMs).2 h hstart
    rw [hlimit', hsum', hlimit, hsum]
    exact ⟨rfl, rfl⟩
  · exact ⟨hlimit, hsum⟩

theorem canTransmit_of_tryRecordTx (h : (tracker.tryRecordTx now durationMs).1 = true) :
    (tracker.canTransmit now durationMs).1 = true := by
  dsimp only [tryRecordTx] at h
  split at h
  · rename_i hallowed
    exact hallowed
  · cases h

end DutyCycleTracker

structure Transmitter (N : Nat) where
  tracker : DutyCycleTracker N
  accepted : List TxRecord

namespace Transmitter

variable {N : Nat}

def new (limit : RegionalDutyCycleLimit) : Transmitter N := ⟨.withRegionalLimit limit, []⟩

def transmit (s : Transmitter N) (record : TxRecord) : Transmitter N :=
  let tried := s.tracker.tryRecordTx record.timestampMs record.durationMs
  ⟨tried.2, if tried.1 then record :: s.accepted else s.accepted⟩

theorem inWindow_transmit (s : Transmitter N)
    (h : windowStart record.timestampMs ≤ start) (hstart : start < 2 ^ 64 - 1)
    (hcounted : inWindow s.tracker.records start = inWindow s.accepted start) :
    (s.transmit record).tracker.limit = s.tracker.limit ∧
      inWindow (s.transmit record).tracker.records start =
        inWindow (s.transmit record).accepted start := by
  obtain ⟨hlimit, hsum⟩ := s.tracker.inWindow_tryRecordTx h hstart
  refine ⟨hlimit, hsum.trans ?_⟩
  rw [hcounted]
  exact (inWindow_ite_cons _ _ _ _).symm

end Transmitter

/-- At the start of each transmission the airtime in the window, the transmission itself included,
is at most `budget`. -/
def WithinBudget (budget : Nat) : List TxRecord → Prop
  | [] => True
  | record :: records => inWindow (record :: records) (windowStart record.timestampMs) ≤ budget ∧
      WithinBudget budget records

/-- The tracker counts what it accepted, and that is within its limit. -/
structure Accounted (limit : RegionalDutyCycleLimit) (last : UInt64) {N : Nat} (s : Transmitter N) :
    Prop where
  limit_eq : s.tracker.limit = limit
  counted : ∀ start, windowStart last ≤ start → start < 2 ^ 64 - 1 →
    inWindow s.tracker.records start = inWindow s.accepted start
  le : inWindow s.accepted (windowStart last) ≤ limit.maxTxMs
  within : WithinBudget limit.maxTxMs s.accepted
  dwell : ∀ record ∈ s.accepted, limit.withinDwell record.durationMs

theorem RegionalDutyCycleLimit.maxTxMs_le (limit : RegionalDutyCycleLimit) :
    limit.maxTxMs ≤ windowMs := by
  have h := limit.le
  rw [maxTxMs, windowMs]
  omega

namespace Accounted

variable {N : Nat} {limit : RegionalDutyCycleLimit} {last : UInt64} {s : Transmitter N}

theorem new : Accounted limit 0 (Transmitter.new limit : Transmitter N) :=
  ⟨rfl, fun _ _ _ => rfl, Nat.zero_le _, trivial, nofun⟩

section

variable (h : Accounted limit last s)

include h

theorem accepted_le (htime : last ≤ now) :
    inWindow s.accepted (windowStart now) ≤ limit.maxTxMs :=
  (inWindow_anti (windowStart_mono htime)).trans h.le

theorem of_canTransmit (htime : last ≤ record.timestampMs)
    (hallowed : (s.tracker.canTransmit record.timestampMs record.durationMs).1 = true) :
    limit.withinDwell record.durationMs ∧
      inWindow (record :: s.accepted) (windowStart record.timestampMs) ≤ limit.maxTxMs := by
  obtain ⟨hdwell, hfits⟩ := s.tracker.canTransmit_fst |>.mp hallowed
  rw [h.limit_eq] at hdwell hfits
  rw [h.counted _ (windowStart_mono htime) windowStart_lt] at hfits
  have hle := h.accepted_le htime
  have hmax := limit.maxTxMs_le
  have hcounted : record.counted (windowStart record.timestampMs) ≤ _ := TxRecord.counted_le
  refine ⟨hdwell, ?_⟩
  rw [inWindow_cons]
  rw [saturate32, windowMs] at *
  omega

theorem transmit (htime : last ≤ record.timestampMs) :
    Accounted limit record.timestampMs (s.transmit record) := by
  have hstep := fun start hle hlt => s.inWindow_transmit hle hlt
    (h.counted start ((windowStart_mono htime).trans hle) hlt)
  have hlimit := (hstep _ le_rfl windowStart_lt).1
  have hcounted := fun start hle hlt => (hstep start hle hlt).2
  cases haccept : (s.tracker.tryRecordTx record.timestampMs record.durationMs).1 with
  | true =>
    obtain ⟨hdwell, hle⟩ :=
      h.of_canTransmit htime (s.tracker.canTransmit_of_tryRecordTx haccept)
    have haccepted : (s.transmit record).accepted = record :: s.accepted := if_pos haccept
    refine ⟨hlimit.trans h.limit_eq, hcounted, ?_, ?_, ?_⟩
    · rw [haccepted]
      exact hle
    · rw [haccepted]
      exact ⟨hle, h.within⟩
    · rw [haccepted]
      exact List.forall_mem_cons.mpr ⟨hdwell, h.dwell⟩
  | false =>
    have haccepted : (s.transmit record).accepted = s.accepted := by
      rw [Transmitter.transmit, haccept]
      rfl
    refine ⟨hlimit.trans h.limit_eq, hcounted, ?_, ?_, ?_⟩
    · rw [haccepted]
      exact h.accepted_le htime
    · rw [haccepted]
      exact h.within
    · rw [haccepted]
      exact h.dwell

theorem run (hlast : ∀ call ∈ calls, last ≤ call.timestampMs)
    (hcalls : calls.Pairwise (·.timestampMs ≤ ·.timestampMs)) :
    ∃ last, Accounted limit last (Lib.run Transmitter.transmit s calls) := by
  induction calls generalizing last s with
  | nil => exact ⟨last, h⟩
  | cons call calls ih =>
    obtain ⟨hcall, hcalls⟩ := List.pairwise_cons.mp hcalls
    exact ih (h.transmit (hlast call List.mem_cons_self)) hcall hcalls

end

end Accounted

noncomputable def TxRecord.airtime (record : TxRecord) (a b : ℝ) : ℝ :=
  max 0 (min ((record.timestampMs.toNat : ℝ) + record.durationMs.toNat) b -
    max (record.timestampMs.toNat : ℝ) a)

noncomputable def airtime (records : List TxRecord) (a b : ℝ) : ℝ :=
  (records.map (·.airtime a b)).sum

theorem TxRecord.airtime_of_le {record : TxRecord} {a b : ℝ}
    (h : b ≤ record.timestampMs.toNat) : record.airtime a b = 0 := by
  apply max_eq_left
  rw [sub_nonpos]
  exact (min_le_right _ _).trans (h.trans (le_max_left _ _))

theorem TxRecord.airtime_le_counted (record : TxRecord) (h : (now.toNat : ℝ) ≤ a + windowMs) :
    record.airtime a (a + windowMs) ≤ record.counted (windowStart now) := by
  obtain hlt | hle := Nat.lt_or_ge record.timestampMs.toNat (windowStart now)
  · have hnow : windowStart now + windowMs = now.toNat := by
      rw [windowStart] at hlt ⊢
      omega
    have hend : min (record.timestampMs.toNat + record.durationMs.toNat) (windowStart now + windowMs)
        ≤ record.txEnd := by
      have hmax := now.toNat_lt
      rw [hnow, TxRecord.txEnd, saturate64]
      omega
    have ha : (windowStart now : ℝ) ≤ a := by
      rw [← hnow, Nat.cast_add] at h
      exact le_of_add_le_add_right h
    rw [counted_of_lt hlt]
    apply max_le (Nat.cast_nonneg _)
    generalize record.timestampMs.toNat = t, record.durationMs.toNat = d, windowStart now = start at *
    calc min ((t : ℝ) + d) (a + windowMs) - max (t : ℝ) a
        ≤ min ((t : ℝ) + d) (a + windowMs) - a := sub_le_sub_left (le_max_right _ _) _
      _ = min ((t : ℝ) + d - a) windowMs := by rw [← min_sub_sub_right, add_sub_cancel_left]
      _ ≤ min ((t : ℝ) + d - start) windowMs := min_le_min_right _ (sub_le_sub_left ha _)
      _ = min ((t : ℝ) + d) (start + windowMs) - start := by
        rw [← min_sub_sub_right, add_sub_cancel_left]
      _ ≤ record.txEnd - start := sub_le_sub_right (by exact_mod_cast hend) _
      _ ≤ (record.txEnd - start : Nat) := by
        rw [sub_le_iff_le_add]
        exact_mod_cast le_tsub_add
  · rw [counted_of_le hle]
    apply max_le (Nat.cast_nonneg _)
    rw [sub_le_iff_le_add']
    exact (min_le_left _ _).trans (add_le_add_left (le_max_left _ _) _)

theorem airtime_le_inWindow (h : (now.toNat : ℝ) ≤ a + windowMs) :
    airtime records a (a + windowMs) ≤ inWindow records (windowStart now) := by
  induction records with
  | nil => simp [airtime]
  | cons record records ih =>
    rw [inWindow_cons, Nat.cast_add]
    exact add_le_add (record.airtime_le_counted h) ih

theorem WithinBudget.airtime_le
    (h : WithinBudget budget records) (a : ℝ) : airtime records a (a + windowMs) ≤ budget := by
  induction records with
  | nil => simp [airtime]
  | cons record records ih =>
    obtain hstart | hstart := le_or_gt (record.timestampMs.toNat : ℝ) (a + windowMs)
    · exact (airtime_le_inWindow hstart).trans (Nat.cast_le.mpr h.1)
    · have hnone : airtime (record :: records) a (a + windowMs) =
          0 + airtime records a (a + windowMs) :=
        congrArg (· + _) (TxRecord.airtime_of_le hstart.le)
      rw [hnone, zero_add]
      exact ih h.2

/-- In no interval as long as the window is more transmitted than the limit grants. -/
theorem airtime_accepted_le (N : Nat) (limit : RegionalDutyCycleLimit) (calls : List TxRecord)
    (hcalls : calls.Pairwise (·.timestampMs ≤ ·.timestampMs)) :
    (∀ a : ℝ, airtime (run Transmitter.transmit (Transmitter.new limit : Transmitter N) calls).accepted
      a (a + windowMs) ≤ limit.maxTxMs) ∧
    ∀ record ∈ (run Transmitter.transmit (Transmitter.new limit : Transmitter N) calls).accepted,
      limit.withinDwell record.durationMs := by
  obtain ⟨_, h⟩ := Accounted.new.run (fun _ _ => UInt64.zero_le) hcalls
  exact ⟨h.within.airtime_le, h.dwell⟩

/-- With a budget of 3600 ms and a dwell limit of 2000 ms, the second transmission must wait until
the first one leaves the window. -/
theorem airtime_accepted_le_of_dwell :
    (run Transmitter.transmit
      (Transmitter.new ⟨1, some 2000, by decide, by decide⟩ : Transmitter 4)
      [⟨0, 2000⟩, ⟨1000, 2001⟩, ⟨2000, 2000⟩, ⟨3600400, 2000⟩, ⟨3604000, 1000⟩]).accepted =
        [⟨3604000, 1000⟩, ⟨3600400, 2000⟩, ⟨0, 2000⟩] ∧
    airtime [⟨3604000, 1000⟩, ⟨3600400, 2000⟩, ⟨0, 2000⟩] 1000 (1000 + windowMs) ≤ 3600 := by
  have haccepted : (run Transmitter.transmit
      (Transmitter.new ⟨1, some 2000, by decide, by decide⟩ : Transmitter 4)
      [⟨0, 2000⟩, ⟨1000, 2001⟩, ⟨2000, 2000⟩, ⟨3600400, 2000⟩, ⟨3604000, 1000⟩]).accepted =
        [⟨3604000, 1000⟩, ⟨3600400, 2000⟩, ⟨0, 2000⟩] := by decide +kernel
  have h := (airtime_accepted_le 4 ⟨1, some 2000, by decide, by decide⟩
    [⟨0, 2000⟩, ⟨1000, 2001⟩, ⟨2000, 2000⟩, ⟨3600400, 2000⟩, ⟨3604000, 1000⟩]
    (by decide +kernel)).1 1000
  rw [haccepted] at h
  exact ⟨haccepted, h.trans (by norm_num [RegionalDutyCycleLimit.maxTxMs, windowMs])⟩

end Lichen.Core
