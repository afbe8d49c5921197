import Lichen.Core.Types

namespace Lichen.Core

def windowMs : Nat := 3600000
def eu868DutyPermille : Nat := 10
def us915DutyPermille : Nat := 1000
def us915FccMaxDwellMs : UInt32 := 400

def saturate32 (n : Nat) : Nat := min n (2 ^ 32 - 1)
def saturate64 (n : Nat) : Nat := min n (2 ^ 64 - 1)

theorem saturate32_add : saturate32 (saturate32 n + m) = saturate32 (n + m) := by
  simp only [saturate32]
  omega

/-- A rolling duty-cycle limit in permille, and a limit on the length of one transmission. -/
structure RegionalDutyCycleLimit where
  dutyPermille : Nat
  maxDwellTimeMs : Option UInt32
  pos : 0 < dutyPermille
  le : dutyPermille ≤ 1000

namespace RegionalDutyCycleLimit

def eu868 : RegionalDutyCycleLimit := ⟨eu868DutyPermille, none, by decide, by decide⟩
def us915 : RegionalDutyCycleLimit :=
  ⟨us915DutyPermille, some us915FccMaxDwellMs, by decide, by decide⟩

section

variable (limit : RegionalDutyCycleLimit)

def maxTxMs : Nat := windowMs / 1000 * limit.dutyPermille

def withinDwell (durationMs : UInt32) : Bool :=
  limit.maxDwellTimeMs.all (durationMs ≤ ·)

end

end RegionalDutyCycleLimit

inductive DutyCycleRegion where
  | eu868
  | us915

def DutyCycleRegion.limit : DutyCycleRegion → RegionalDutyCycleLimit
  | eu868 => .eu868
  | us915 => .us915

inductive CongestionLevel where
  | normal
  | elevated
  | critical
  | exhausted
  deriving DecidableEq

def thresholdElevated : Nat := 500
def thresholdCritical : Nat := 800
def thresholdExhausted : Nat := 950

def congestionLevelFromPermille (usagePermille : Nat) : CongestionLevel :=
  if usagePermille > thresholdExhausted then .exhausted
  else if usagePermille ≥ thresholdCritical then .critical
  else if usagePermille ≥ thresholdElevated then .elevated
  else .normal

structure TxRecord where
  timestampMs : UInt64
  durationMs : UInt32
  deriving DecidableEq

namespace TxRecord

def txEnd (record : TxRecord) : Nat :=
  saturate64 (record.timestampMs.toNat + record.durationMs.toNat)

def counted (record : TxRecord) (windowStart : Nat) : Nat :=
  if record.timestampMs.toNat ≥ windowStart then record.durationMs.toNat
  else if record.txEnd > windowStart then (record.txEnd - windowStart) % 2 ^ 32
  else 0

end TxRecord

def windowStart (nowMs : UInt64) : Nat := nowMs.toNat - windowMs

/-- The transmissions of the last window, in a buffer for `N` of them. -/
structure DutyCycleTracker (N : Nat) where
  records : List TxRecord
  limit : RegionalDutyCycleLimit
  fits : records.length ≤ N

namespace DutyCycleTracker

variable {N : Nat}

def withRegionalLimit (limit : RegionalDutyCycleLimit) : DutyCycleTracker N :=
  ⟨[], limit, Nat.zero_le N⟩

def withRegion (region : DutyCycleRegion) : DutyCycleTracker N := withRegionalLimit region.limit

def evictStale (tracker : DutyCycleTracker N) (nowMs : UInt64) : DutyCycleTracker N where
  records := tracker.records.dropWhile (·.txEnd ≤ windowStart nowMs)
  limit := tracker.limit
  fits := (List.dropWhile_sublist _).length_le.trans tracker.fits

def recordTx (tracker : DutyCycleTracker N) (timestampMs : UInt64) (durationMs : UInt32) :
    Bool × DutyCycleTracker N :=
  let tracker := tracker.evictStale timestampMs
  if h : tracker.records.length < N then
    (true, ⟨tracker.records ++ [⟨timestampMs, durationMs⟩], tracker.limit,
      by rw [List.length_append]; exact h⟩)
  else (false, tracker)

def totalTxInWindow (tracker : DutyCycleTracker N) (nowMs : UInt64) : Nat :=
  tracker.records.foldl (fun total record =>
    saturate32 (total + record.counted (windowStart nowMs))) 0

def remainingMs (tracker : DutyCycleTracker N) (nowMs : UInt64) : Nat × DutyCycleTracker N :=
  let tracker := tracker.evictStale nowMs
  (tracker.limit.maxTxMs - tracker.totalTxInWindow nowMs, tracker)

def usagePermille (tracker : DutyCycleTracker N) (nowMs : UInt64) : Nat × DutyCycleTracker N :=
  let tracker := tracker.evictStale nowMs
  (tracker.totalTxInWindow nowMs * 1000 / windowMs % 2 ^ 16, tracker)

def congestionLevel (tracker : DutyCycleTracker N) (nowMs : UInt64) :
    CongestionLevel × DutyCycleTracker N :=
  let (usage, tracker) := tracker.usagePermille nowMs
  (congestionLevelFromPermille usage, tracker)

/-- The end of the first record with which the durations add up to what is `needed`. -/
def agesOut (needed freed : Nat) : List TxRecord → Option Nat
  | [] => none
  | record :: records =>
    let freed := saturate32 (freed + record.durationMs.toNat)
    if freed ≥ needed then some (saturate64 (record.txEnd + windowMs))
    else agesOut needed freed records

section

variable (tracker : DutyCycleTracker N)

def nextTxAvailableMs (nowMs : UInt64) (durationMs : UInt32) :
    Nat × DutyCycleTracker N :=
  let tracker := tracker.evictStale nowMs
  if !tracker.limit.withinDwell durationMs then (2 ^ 64 - 1, tracker)
  else
    let maxTx := tracker.limit.maxTxMs
    let wanted := saturate32 (tracker.totalTxInWindow nowMs + durationMs.toNat)
    if wanted ≤ maxTx then (nowMs.toNat, tracker)
    else ((agesOut (wanted - maxTx) 0 tracker.records).getD (2 ^ 64 - 1), tracker)

def canTransmit (nowMs : UInt64) (durationMs : UInt32) :
    Bool × DutyCycleTracker N :=
  if tracker.limit.withinDwell durationMs then
    let (remaining, tracker) := tracker.remainingMs nowMs
    (remaining ≥ durationMs.toNat, tracker)
  else (false, tracker)

def tryRecordTx (timestampMs : UInt64) (durationMs : UInt32) :
    Bool × DutyCycleTracker N :=
  let (allowed, tracker) := tracker.canTransmit timestampMs durationMs
  if allowed then tracker.recordTx timestampMs durationMs else (false, tracker)

end

end DutyCycleTracker

end Lichen.Core
