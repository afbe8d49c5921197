import Lichen.Lib.Guard
import Lichen.Lib.RateLog
import Lichen.Lib.Run
import Mathlib.Algebra.Group.Nat.Defs

namespace Lichen.Link

open Lichen.Lib List

inductive SosRateLimitConfigError
  | zeroCooldown
  | invalidHourlyLimit
  | invalidBurstAllowance

structure SosRateLimitConfig where
  cooldownSecs : UInt32
  maxPerHour : UInt8
  burstAllowance : UInt8
  cooldown_ne_zero : cooldownSecs ≠ 0
  maxPerHour_le : maxPerHour ≤ 3
  burst_ne_zero : burstAllowance ≠ 0
  burst_le_two : burstAllowance ≤ 2
  burst_le_max : burstAllowance ≤ maxPerHour

namespace SosRateLimitConfig

def new (cooldownSecs : UInt32) (maxPerHour burstAllowance : UInt8) :
    Except SosRateLimitConfigError SosRateLimitConfig :=
  if hcooldown : cooldownSecs = 0 then .error .zeroCooldown
  else if hmax : maxPerHour = 0 ∨ maxPerHour > 3 then .error .invalidHourlyLimit
  else if hburst : burstAllowance = 0 ∨ burstAllowance > 2 ∨ burstAllowance > maxPerHour then
    .error .invalidBurstAllowance
  else
    have hmax := not_or.mp hmax
    have hburst := not_or.mp hburst
    have hbounds := not_or.mp hburst.2
    .ok ⟨cooldownSecs, maxPerHour, burstAllowance, hcooldown, UInt8.not_lt.mp hmax.2, hburst.1,
      UInt8.not_lt.mp hbounds.1, UInt8.not_lt.mp hbounds.2⟩

instance : Inhabited SosRateLimitConfig :=
  ⟨600, 3, 2, by decide, by decide, by decide, by decide, by decide⟩

section

variable (config : SosRateLimitConfig)

theorem burstAllowance_pos : 0 < config.burstAllowance.toNat :=
  UInt8.pos_iff_ne_zero.mpr config.burst_ne_zero

theorem maxPerHour_pos : 0 < config.maxPerHour.toNat :=
  Nat.lt_of_lt_of_le config.burstAllowance_pos (UInt8.le_iff_toNat_le.mp config.burst_le_max)

end

end SosRateLimitConfig

structure SosRateLimitState where
  alertTimes : BoundedVec Nat 3
  burstRemaining : Nat

inductive SosRateLimitResult
  | allowed
  | cooldownActive (remainingSecs : Nat)
  | hourlyLimitExceeded (windowResetSecs : Nat)
  deriving DecidableEq, Repr

namespace SosRateLimitState

def new (config : SosRateLimitConfig) : SosRateLimitState := ⟨.new, config.burstAllowance.toNat⟩

def inWindow (now time : Nat) : Bool := now - 3600 ≤ time

theorem inWindow_iff : inWindow now time = true ↔ now - 3600 ≤ time := by
  rw [inWindow, decide_eq_true_iff]

theorem inWindow_of_later (hle : now ≤ later) (h : inWindow later time) : inWindow now time := by
  rw [inWindow_iff] at h ⊢
  exact Nat.le_trans (Nat.sub_le_sub_right hle 3600) h

section

variable (state : SosRateLimitState)

def countInWindow (now : Nat) : Nat :=
  state.alertTimes.items.countP (inWindow now)

def oldestInWindow (now : Nat) : Option Nat :=
  (state.alertTimes.items.filter (inWindow now)).min?

def mostRecent : Option Nat := state.alertTimes.items.getLast?

def checkCooldown (now : Nat) (config : SosRateLimitConfig) :
    SosRateLimitResult :=
  if state.burstRemaining > 0 then .allowed
  else
    match state.mostRecent with
    | some last =>
      let elapsed := now - last
      if elapsed < config.cooldownSecs.toNat then
        .cooldownActive (config.cooldownSecs.toNat - elapsed)
      else .allowed
    | none => .allowed

end

def check (overflowChecks : Bool) (state : SosRateLimitState) (now : Nat)
    (config : SosRateLimitConfig) : Option SosRateLimitResult :=
  if state.countInWindow now ≥ config.maxPerHour.toNat then
    match state.oldestInWindow now with
    | some oldest =>
      if overflowChecks ∧ oldest + 3600 ≥ 2 ^ 64 then none
      else some (.hourlyLimitExceeded (((oldest + 3600) % 2 ^ 64 - now) % 2 ^ 32))
    | none => some (state.checkCooldown now config)
  else some (state.checkCooldown now config)

def append (times : BoundedVec Nat 3) (now : Nat) : BoundedVec Nat 3 :=
  match times.push now with
  | some times => times
  | none => ((times.remove 0).push now).getD times

def record (state : SosRateLimitState) (now : Nat) : SosRateLimitState where
  burstRemaining := state.burstRemaining - 1
  alertTimes := append (state.alertTimes.retain (inWindow now)) now

variable {state : SosRateLimitState} {config : SosRateLimitConfig} {overflowChecks : Bool}
  {now : Nat}

theorem exists_oldestInWindow (h : config.maxPerHour.toNat ≤ state.countInWindow now) :
    ∃ oldest, state.oldestInWindow now = some oldest := by
  cases holdest : state.oldestInWindow now with
  | some oldest => exact ⟨oldest, rfl⟩
  | none =>
    -- the limit is positive, so some alert is in the window
    have hempty := List.min?_eq_none_iff.mp holdest
    rw [countInWindow, countP_eq_length_filter, hempty] at h
    exact absurd config.maxPerHour_pos (Nat.not_lt.mpr h)

theorem check_of_below (h : state.countInWindow now < config.maxPerHour.toNat) :
    check overflowChecks state now config = some (state.checkCooldown now config) :=
  if_neg (Nat.not_le.mpr h)

theorem check_of_limit (h : config.maxPerHour.toNat ≤ state.countInWindow now)
    (holdest : state.oldestInWindow now = some oldest) :
    check overflowChecks state now config =
      if overflowChecks ∧ oldest + 3600 ≥ 2 ^ 64 then none
      else some (.hourlyLimitExceeded (((oldest + 3600) % 2 ^ 64 - now) % 2 ^ 32)) := by
  rw [check, if_pos h, holdest]

/-- Why a check gives its result. -/
inductive Checked (state : SosRateLimitState) (now : Nat) (config : SosRateLimitConfig) :
    SosRateLimitResult → Prop
  | allowed (below : state.countInWindow now < config.maxPerHour.toNat)
      (free : 0 < state.burstRemaining ∨
        ∀ last, state.mostRecent = some last → config.cooldownSecs.toNat ≤ now - last) :
      Checked state now config .allowed
  | cooldown (below : state.countInWindow now < config.maxPerHour.toNat)
      (burst : state.burstRemaining = 0) (recent : state.mostRecent = some last)
      (early : now - last < config.cooldownSecs.toNat) :
      Checked state now config (.cooldownActive (config.cooldownSecs.toNat - (now - last)))
  | hourly (limit : config.maxPerHour.toNat ≤ state.countInWindow now)
      (first : state.oldestInWindow now = some oldest) :
      Checked state now config (.hourlyLimitExceeded (((oldest + 3600) % 2 ^ 64 - now) % 2 ^ 32))

theorem checked_of_check (h : check overflowChecks state now config = some r) :
    Checked state now config r := by
  obtain hbelow | hlimit := Nat.lt_or_ge (state.countInWindow now) config.maxPerHour.toNat
  · rw [check_of_below hbelow, Option.some.injEq, checkCooldown] at h
    subst h
    split
    · exact .allowed hbelow (.inl ‹_›)
    rename_i hburst
    cases hlast : state.mostRecent with
    | none => exact .allowed hbelow (.inr (hlast ▸ nofun))
    | some last =>
      dsimp only
      split
      · exact .cooldown hbelow (Nat.eq_zero_of_not_pos hburst) hlast ‹_›
      · rename_i hlate
        refine .allowed hbelow (.inr fun last' hlast' => ?_)
        cases hlast.symm.trans hlast'
        exact Nat.not_lt.mp hlate
  · obtain ⟨_, holdest⟩ := exists_oldestInWindow hlimit
    rw [check_of_limit hlimit holdest] at h
    split at h
    · cases h
    · cases h
      exact .hourly hlimit holdest

theorem items_record (hroom : state.countInWindow now < 3) : (state.record now).alertTimes.items =
      state.alertTimes.items.filter (inWindow now) ++ [now] := by
  rw [record, append]
  cases hpush : (state.alertTimes.retain (inWindow now)).push now with
  | some => exact (BoundedVec.push_eq_some.mp hpush).2
  | none =>
    have hfull := BoundedVec.push_eq_none.mp hpush
    rw [BoundedVec.items_retain, ← countP_eq_length_filter] at hfull
    exact absurd hfull (Nat.ne_of_lt hroom)

end SosRateLimitState

/-- The limiter of one source with the times of the alerts it has allowed, in order. -/
structure SosWatch where
  state : SosRateLimitState
  allowed : List Nat

namespace SosWatch

open SosRateLimitState

def new (config : SosRateLimitConfig) : SosWatch := ⟨.new config, []⟩

def step (overflowChecks : Bool) (config : SosRateLimitConfig) (watch : SosWatch) (now : Nat) :
    SosWatch :=
  match check overflowChecks watch.state now config with
  | some .allowed => ⟨watch.state.record now, watch.allowed ++ [now]⟩
  | _ => watch

def Spaced (burst gap : Nat) (times : List Nat) : Prop :=
  ∀ i earlier time, burst ≤ i + 1 → times[i]? = some earlier → times[i + 1]? = some time →
    earlier + gap ≤ time

theorem Spaced.concat (h : Spaced burst gap times)
    (hlast : burst ≤ times.length → ∀ last, times.getLast? = some last → last + gap ≤ now) :
    Spaced burst gap (times ++ [now]) := by
  intro i earlier time hburst hearlier htime
  obtain hlt | heq | hgt := Nat.lt_trichotomy (i + 1) times.length
  · rw [List.getElem?_append_left (Nat.lt_of_succ_lt hlt)] at hearlier
    rw [List.getElem?_append_left hlt] at htime
    exact h i earlier time hburst hearlier htime
  · rw [List.getElem?_append_left (by omega)] at hearlier
    rw [List.getElem?_append_right (by omega), heq, Nat.sub_self] at htime
    cases htime
    refine hlast (heq ▸ hburst) earlier ?_
    rw [List.getLast?_eq_getElem?, ← heq]
    exact hearlier
  · rw [List.getElem?_eq_none (by simpa using Nat.le_of_lt_succ hgt)] at htime
    cases htime

structure Inv (config : SosRateLimitConfig) (now : Nat) (watch : SosWatch) : Prop where
  tracks : Tracks inWindow now watch.state.alertTimes.items watch.allowed
  past : ∀ time ∈ watch.allowed, time ≤ now
  sorted : watch.allowed.Pairwise (· ≤ ·)
  limited : Limited inWindow config.maxPerHour.toNat watch.allowed
  burst : watch.state.burstRemaining = config.burstAllowance.toNat - watch.allowed.length
  mostRecent : watch.state.mostRecent = watch.allowed.getLast?
  spaced : Spaced config.burstAllowance.toNat config.cooldownSecs.toNat watch.allowed

variable {overflowChecks : Bool} {config : SosRateLimitConfig} {watch : SosWatch} {now later : Nat}

theorem inv_new : Inv config 0 (new config) where
  tracks _ _ := rfl
  past := nofun
  sorted := .nil
  limited := .nil
  burst := rfl
  mostRecent := rfl
  spaced := nofun

section

variable (h : Inv config now watch)

include h

theorem Inv.mono (hle : now ≤ later) : Inv config later watch :=
  { h with
    tracks := fun t ht => h.tracks t (Nat.le_trans hle ht)
    past := fun time htime => Nat.le_trans (h.past time htime) hle }

theorem Inv.countInWindow_eq :
    watch.state.countInWindow now = watch.allowed.countP (inWindow now) := by
  rw [countInWindow, countP_eq_length_filter, h.tracks now (Nat.le_refl now),
    countP_eq_length_filter]

theorem Inv.record (hcheck : check overflowChecks watch.state now config = some .allowed) :
    Inv config now ⟨watch.state.record now, watch.allowed ++ [now]⟩ := by
  obtain ⟨hcount, hcooldown⟩ := checked_of_check hcheck
  have hmax : config.maxPerHour.toNat ≤ 3 := UInt8.le_iff_toNat_le.mp config.maxPerHour_le
  have hitems := items_record (Nat.lt_of_lt_of_le hcount hmax)
  refine ⟨?_, ?_, ?_, ?_, ?_, ?_, ?_⟩
  · rw [hitems]
    have hprune := h.tracks.prune (Nat.le_refl now) fun _ _ _ ht => inWindow_of_later ht
    exact hprune.concat now
  · intro time htime
    obtain htime | htime := mem_append.mp htime
    · exact h.past time htime
    · exact Nat.le_of_eq (mem_singleton.mp htime)
  · refine pairwise_append.mpr ⟨h.sorted, pairwise_singleton _ _, ?_⟩
    intro time htime last hlast
    exact mem_singleton.mp hlast ▸ h.past time htime
  · exact h.limited.concat (h.countInWindow_eq ▸ hcount)
  · rw [length_append, SosRateLimitState.record, h.burst]
    exact Nat.sub_sub _ _ _
  · rw [SosRateLimitState.mostRecent, hitems, List.getLast?_concat, List.getLast?_concat]
  · refine h.spaced.concat fun hburst last hlast => ?_
    have hused : watch.state.burstRemaining = 0 := h.burst.trans (Nat.sub_eq_zero_of_le hburst)
    have hgap := (hcooldown.resolve_left (by omega)) last (h.mostRecent.trans hlast)
    have hpast := h.past last (mem_of_getLast? hlast)
    omega

theorem inv_step (hle : now ≤ later) :
    Inv config later (step overflowChecks config watch later) := by
  rw [step]
  split
  · rename_i hcheck
    exact (h.mono hle).record hcheck
  · exact h.mono hle

end

/-- The hourly limit and the cooldown hold over every run of one source. -/
theorem allowed_within_limits (overflowChecks : Bool) (config : SosRateLimitConfig)
    (alerts : List Nat) (hsorted : alerts.Pairwise (· ≤ ·)) :
    let allowed := (run (step overflowChecks config) (new config) alerts).allowed
    (∀ start, allowed.countP (fun time => start ≤ time ∧ time ≤ start + 3600) ≤
        config.maxPerHour.toNat) ∧
      ∀ i earlier time, config.burstAllowance.toNat ≤ i + 1 → allowed[i]? = some earlier →
        allowed[i + 1]? = some time → earlier + config.cooldownSecs.toNat ≤ time := by
  have hnone : Steps (fun _ _ => True) (step overflowChecks config) (new config) alerts :=
    steps_of_forall (new config) fun _ _ => trivial
  obtain ⟨_, -, hinv⟩ := run_invariant_sorted id (fun _ _ _ h hle _ => inv_step h hle)
    inv_new alerts
    (pairwise_cons.mpr ⟨fun _ _ => Nat.zero_le _, pairwise_map.mpr hsorted⟩) hnone
  refine ⟨fun start => hinv.limited.countP_le ?_ hinv.sorted, hinv.spaced⟩
  intro time earlier htime hearlier _
  have htime : start ≤ time ∧ time ≤ start + 3600 := of_decide_eq_true htime
  have hearlier : start ≤ earlier ∧ earlier ≤ start + 3600 := of_decide_eq_true hearlier
  rw [inWindow_iff]
  omega

/-- Two alerts of the burst at once, a third within its cooldown and one an hour later. -/
theorem allowed_within_limits_of_default :
    let allowed := (run (step true default) (new default) [5, 5, 100, 3700]).allowed
    (∀ start, allowed.countP (fun time => start ≤ time ∧ time ≤ start + 3600) ≤ 3) ∧
      ∀ i earlier time, 2 ≤ i + 1 → allowed[i]? = some earlier →
        allowed[i + 1]? = some time → earlier + 600 ≤ time :=
  allowed_within_limits true default [5, 5, 100, 3700] (by decide)

end SosWatch

namespace SosRateLimitState

variable {state : SosRateLimitState} {config : SosRateLimitConfig} {overflowChecks : Bool}
  {now later : Nat}

theorem check_of_cooldown (hburst : state.burstRemaining = 0)
    (hlast : state.mostRecent = some last)
    (hbelow : state.countInWindow now < config.maxPerHour.toNat) (hle : now ≤ later) :
    check overflowChecks state later config =
      if later - last < config.cooldownSecs.toNat then
        some (.cooldownActive (config.cooldownSecs.toNat - (later - last)))
      else some .allowed := by
  have hcount : state.countInWindow later ≤ state.countInWindow now :=
    countP_mono_left fun _ _ => inWindow_of_later hle
  rw [check_of_below (Nat.lt_of_le_of_lt hcount hbelow), checkCooldown, hburst, hlast]
  simp only [gt_iff_lt, Nat.lt_irrefl, if_false]
  split <;> rfl

/-- Up to the last second of its oldest alert, the window keeps all the alerts it holds. -/
theorem countInWindow_of_oldest (holdest : state.oldestInWindow now = some oldest)
    (hle : later ≤ oldest + 3600) : state.countInWindow now ≤ state.countInWindow later := by
  apply countP_mono_left
  intro time hmem hnow
  have holdest := (List.min?_eq_some_iff.mp holdest).2 time (mem_filter.mpr ⟨hmem, hnow⟩)
  rw [inWindow_iff]
  omega

theorem check_of_full (htimes : ∀ time ∈ state.alertTimes.items, time < 2 ^ 63)
    (hlimit : config.maxPerHour.toNat ≤ state.countInWindow now) :
    ∃ oldest, state.oldestInWindow now = some oldest ∧
      check overflowChecks state now config =
        some (.hourlyLimitExceeded ((oldest + 3600 - now) % 2 ^ 32)) := by
  obtain ⟨oldest, holdest⟩ := exists_oldestInWindow hlimit
  have hlt := htimes oldest (mem_filter.mp (List.min?_mem holdest)).1
  have hsum : (oldest + 3600) % 2 ^ 64 = oldest + 3600 := Nat.mod_eq_of_lt (by omega)
  refine ⟨oldest, holdest, ?_⟩
  rw [check_of_limit hlimit holdest, if_neg (by omega), hsum]

/-- A denial for this reason lasts as long as it says. -/
def WaitExact (overflowChecks : Bool) (state : SosRateLimitState) (now : Nat)
    (config : SosRateLimitConfig) (denied : Nat → SosRateLimitResult) : Prop :=
  ∀ r, check overflowChecks state now config = some (denied r) →
    (∀ later, now ≤ later → later < now + r →
      ∃ left, check overflowChecks state later config = some (denied left)) ∧
    ∀ left, check overflowChecks state (now + r) config ≠ some (denied left)

/-- A wait is exact while the hour has room for another alert, if the clock is not behind the last
one. One for the hourly limit is a second short. -/
theorem wait_exact_iff (overflowChecks : Bool) (state : SosRateLimitState)
    (config : SosRateLimitConfig) (now : Nat)
    (htimes : ∀ time ∈ state.alertTimes.items, time < 2 ^ 63) :
    (WaitExact overflowChecks state now config .cooldownActive ∧
      WaitExact overflowChecks state now config .hourlyLimitExceeded) ↔
    state.countInWindow now < config.maxPerHour.toNat ∧
      (state.burstRemaining = 0 → ∀ last, state.mostRecent = some last → last ≤ now) := by
  constructor
  · rintro ⟨hcooldown, hhourly⟩
    have hbelow : state.countInWindow now < config.maxPerHour.toNat := by
      refine Nat.lt_of_not_le fun hlimit => ?_
      obtain ⟨oldest, holdest, hdenied⟩ := check_of_full htimes hlimit
      have hwindow := (mem_filter.mp (List.min?_mem holdest)).2
      rw [inWindow_iff] at hwindow
      have hkept : now + (oldest + 3600 - now) % 2 ^ 32 ≤ oldest + 3600 := by omega
      obtain ⟨_, -, hstill⟩ := check_of_full htimes
        (Nat.le_trans hlimit (countInWindow_of_oldest holdest hkept))
      exact (hhourly _ hdenied).2 _ hstill
    refine ⟨hbelow, fun hburst last hlast => Nat.le_of_not_lt fun hahead => ?_⟩
    have hpos : 0 < config.cooldownSecs.toNat := UInt32.pos_iff_ne_zero.mpr config.cooldown_ne_zero
    have hdenied : check overflowChecks state now config = some (.cooldownActive _) :=
      (check_of_cooldown hburst hlast hbelow (Nat.le_refl now)).trans (if_pos (by omega))
    have hends := (hcooldown _ hdenied).2
    rw [check_of_cooldown hburst hlast hbelow (Nat.le_add_right _ _), if_pos (by omega)] at hends
    exact hends _ rfl
  · rintro ⟨hbelow, hrecent⟩
    constructor
    · intro r h
      obtain _ | @⟨last, -, hburst, hlast, -⟩ := checked_of_check h
      have hlast_le := hrecent hburst last hlast
      constructor
      · intro later hle hlt
        rw [check_of_cooldown hburst hlast hbelow hle, if_pos (by omega)]
        exact ⟨_, rfl⟩
      · intro left
        rw [check_of_cooldown hburst hlast hbelow (Nat.le_add_right _ _), if_neg (by omega)]
        nofun
    · intro r h
      obtain _ | _ | ⟨hlimit, -⟩ := checked_of_check h
      exact absurd hbelow (Nat.not_lt.mpr hlimit)

theorem wait_exact_of_burst :
    let state := (run (SosWatch.step true default) (SosWatch.new default) [0, 0]).state
    check true state 100 default = some (.cooldownActive 500) ∧
      ∀ left, check true state 600 default ≠ some (.cooldownActive left) :=
  ⟨by decide, (((wait_exact_iff true _ default 100 (by decide)).mpr (by decide)).1 500
    (by decide)).2⟩

/-- Three alerts are in the window; when the wait of 2900 seconds is over, they all still are. -/
theorem denied_after_hourly_wait :
    let state := (run (SosWatch.step true default) (SosWatch.new default) [0, 0, 600]).state
    check true state 700 default = some (.hourlyLimitExceeded 2900) ∧
      check true state 3600 default = some (.hourlyLimitExceeded 0) := by
  decide

end SosRateLimitState

end Lichen.Link
