import Lichen.Core.Airtime

namespace Lichen.Core

open Lichen.Lib

def budgetLevel (used budget : Nat) : CongestionLevel :=
  if 19 * budget < 20 * used then .exhausted
  else if 4 * budget ≤ 5 * used then .critical
  else if budget ≤ 2 * used then .elevated
  else .normal

/-- The airtime with which the level of the whole window is the level of the budget. -/
def LevelAgrees (used budget : Nat) : Prop :=
  2 * used < budget ∨
  (1800000 ≤ used ∧ 5 * used < 4 * budget) ∨
  (2880000 ≤ used ∧ 20 * used ≤ 19 * budget) ∨
  3423600 ≤ saturate32 used % 235929600

theorem permille_eq : used * 1000 / windowMs % 2 ^ 16 = used % 235929600 / 3600 := by
  rw [windowMs]
  omega

section

variable {used budget : Nat}

theorem levelAgrees_of_le (h : budget ≤ windowMs) (hused : used ≤ 3420000) :
    congestionLevelFromPermille (used / 3600) = budgetLevel used budget ↔
      2 * used < budget ∨ (1800000 ≤ used ∧ 5 * used < 4 * budget) ∨
        (2880000 ≤ used ∧ 20 * used ≤ 19 * budget) := by
  rw [windowMs] at h
  rw [congestionLevelFromPermille, budgetLevel, thresholdExhausted, thresholdCritical,
    thresholdElevated]
  split_ifs <;> simp only [true_iff, false_iff] <;> omega

theorem congestionLevelFromPermille_eq_exhausted :
    congestionLevelFromPermille permille = .exhausted ↔ 950 < permille := by
  rw [congestionLevelFromPermille, thresholdExhausted]
  split_ifs <;> simp only [true_iff, false_iff] <;> omega

theorem congestionLevelFromPermille_eq_budgetLevel (h : budget ≤ windowMs) :
    congestionLevelFromPermille (saturate32 used * 1000 / windowMs % 2 ^ 16) =
      budgetLevel used budget ↔ LevelAgrees used budget := by
  rw [permille_eq, LevelAgrees, saturate32]
  obtain hused | hused := Nat.lt_or_ge 3420000 used
  · rw [windowMs] at h
    rw [budgetLevel, if_pos (by omega), congestionLevelFromPermille_eq_exhausted]
    omega
  · have hmod : min used (2 ^ 32 - 1) % 235929600 = used := by omega
    rw [hmod, levelAgrees_of_le h hused]
    omega

end

inductive TxCall where
  | recordTx (record : TxRecord)
  | tryRecordTx (record : TxRecord)

def TxCall.record : TxCall → TxRecord
  | recordTx record => record
  | tryRecordTx record => record

namespace Transmitter

variable {N : Nat}

def call (s : Transmitter N) : TxCall → Transmitter N
  | .recordTx record =>
    let recorded := s.tracker.recordTx record.timestampMs record.durationMs
    ⟨recorded.2, if recorded.1 then record :: s.accepted else s.accepted⟩
  | .tryRecordTx record => s.transmit record

theorem inWindow_call (s : Transmitter N)
    (h : windowStart c.record.timestampMs ≤ start) (hstart : start < 2 ^ 64 - 1)
    (hcounted : inWindow s.tracker.records start = inWindow s.accepted start) :
    (s.call c).tracker.limit = s.tracker.limit ∧
      inWindow (s.call c).tracker.records start = inWindow (s.call c).accepted start := by
  cases c with
  | recordTx =>
    obtain ⟨hlimit, hsum⟩ := s.tracker.inWindow_recordTx h hstart
    refine ⟨hlimit, hsum.trans ?_⟩
    rw [hcounted]
    exact (inWindow_ite_cons _ _ _ _).symm
  | tryRecordTx => exact s.inWindow_transmit h hstart hcounted

theorem inWindow_run {s : Transmitter N} (hnow : ∀ c ∈ calls, c.record.timestampMs ≤ now)
    (hcounted : inWindow s.tracker.records (windowStart now) =
      inWindow s.accepted (windowStart now)) : (run call s calls).tracker.limit = s.tracker.limit ∧
      inWindow (run call s calls).tracker.records (windowStart now) =
        inWindow (run call s calls).accepted (windowStart now) := by
  induction calls generalizing s with
  | nil => exact ⟨rfl, hcounted⟩
  | cons c calls ih =>
    obtain ⟨hc, hcalls⟩ := List.forall_mem_cons.mp hnow
    obtain ⟨hlimit, hcounted⟩ := s.inWindow_call (windowStart_mono hc) windowStart_lt hcounted
    obtain ⟨hlimit', hcounted'⟩ := ih hcalls hcounted
    exact ⟨hlimit'.trans hlimit, hcounted'⟩

end Transmitter

theorem DutyCycleTracker.congestionLevel_fst (tracker : DutyCycleTracker N) :
    (tracker.congestionLevel now).1 = congestionLevelFromPermille
      (saturate32 (inWindow tracker.records (windowStart now)) * 1000 / windowMs % 2 ^ 16) := by
  rw [← tracker.totalTxInWindow_evictStale]
  rfl

/-- A tracker reports the level of the budget exactly for such airtime in the window. -/
theorem congestionLevel_eq_budgetLevel (N : Nat) (limit : RegionalDutyCycleLimit)
    (calls : List TxCall) (now : UInt64) (hnow : ∀ c ∈ calls, c.record.timestampMs ≤ now) :
    let s : Transmitter N := run Transmitter.call (Transmitter.new limit) calls
    (s.tracker.congestionLevel now).1 =
        budgetLevel (inWindow s.accepted (windowStart now)) limit.maxTxMs ↔
      LevelAgrees (inWindow s.accepted (windowStart now)) limit.maxTxMs := by
  intro s
  have hcounted := (Transmitter.inWindow_run (s := Transmitter.new limit) (N := N) hnow rfl).2
  rw [s.tracker.congestionLevel_fst, hcounted]
  exact congestionLevelFromPermille_eq_budgetLevel limit.maxTxMs_le

/-- With the whole hour as the budget, an hour less 180 s is critical. -/
theorem congestionLevel_eq_budgetLevel_of_us915 :
    let s : Transmitter 4 := run Transmitter.call (Transmitter.new .us915)
      [.recordTx ⟨0, 2000000⟩, .recordTx ⟨3000000, 1420000⟩]
    (s.tracker.congestionLevel 3600000).1 = budgetLevel 3420000 3600000 ∧
      budgetLevel 3420000 3600000 = .critical := by
  have hused : inWindow (run Transmitter.call (Transmitter.new .us915 : Transmitter 4)
      [.recordTx ⟨0, 2000000⟩, .recordTx ⟨3000000, 1420000⟩]).accepted (windowStart 3600000) =
        3420000 := by decide +kernel
  have h := congestionLevel_eq_budgetLevel 4 .us915
    [.recordTx ⟨0, 2000000⟩, .recordTx ⟨3000000, 1420000⟩] 3600000 (by decide +kernel)
  dsimp only at h
  rw [hused] at h
  exact ⟨h.mpr (.inr (.inr (.inl (by decide)))), by decide⟩

/-- With a budget of 36 s, all of it used is reported as normal; airtime of over 65 hours in the
window, which the tracker records without a check, is reported as normal too. -/
theorem congestionLevel_ne_budgetLevel :
    (let s : Transmitter 64 := run Transmitter.call (Transmitter.new .eu868) [.tryRecordTx ⟨0, 36000⟩]
    inWindow s.accepted (windowStart 36000) = RegionalDutyCycleLimit.eu868.maxTxMs ∧
      budgetLevel 36000 RegionalDutyCycleLimit.eu868.maxTxMs = .exhausted ∧
      (s.tracker.congestionLevel 36000).1 = .normal) ∧
    (let s : Transmitter 64 := run Transmitter.call (Transmitter.new .us915) [.recordTx ⟨0, 235929600⟩]
    (s.tracker.congestionLevel 0).1 = .normal) := by
  decide +kernel

end Lichen.Core
