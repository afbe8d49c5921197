import Lichen.Lib.Slots
import Mathlib.Algebra.Group.Nat.Defs

namespace Lichen.Gateway

open Lichen.Lib

def maxSlotsPerSuperframe : Nat := 4096
def maxCoordinatingGateways : Nat := 256

inductive SlotError where
  | invalidDimensions
  | tooManyGateways
  | invalidOrdinal
  | invalidSlot
  | tooManySlots
  | duplicateSlot
  | nonCanonicalSlots
  | identityMismatch
  | malformedClaim
  | unsupportedAlgorithm
  | arithmeticOverflow
  deriving DecidableEq

inductive AllocationMode where
  | interleaved
  | contiguous

def validateDimensions (slotsPerSuperframe gatewayCount : Nat) : Except SlotError Unit :=
  if slotsPerSuperframe = 0 ∨ gatewayCount = 0 then .error .invalidDimensions
  else if maxSlotsPerSuperframe < slotsPerSuperframe then .error .tooManySlots
  else if maxCoordinatingGateways < gatewayCount then .error .tooManyGateways
  else .ok ()

structure SlotAllocator where
  mode : AllocationMode
  slotsPerSuperframe : Nat
  gatewayCount : Nat
  valid : validateDimensions slotsPerSuperframe gatewayCount = .ok ()

def checked (value : Nat) : Option Nat := if value < 2 ^ 32 then some value else none

def stepBy (start stop step : Nat) : List Nat :=
  List.range' start ((stop - start + step - 1) / step) step

namespace SlotAllocator

def tryNew (mode : AllocationMode) (slotsPerSuperframe gatewayCount : Nat) :
    Except SlotError SlotAllocator :=
  match h : validateDimensions slotsPerSuperframe gatewayCount with
  | .error e => .error e
  | .ok () => .ok ⟨mode, slotsPerSuperframe, gatewayCount, h⟩

variable (allocator : SlotAllocator)

def allocateInterleaved (ordinal : Nat) : List Nat :=
  stepBy ordinal allocator.slotsPerSuperframe allocator.gatewayCount

def baseCount : Nat := allocator.slotsPerSuperframe / allocator.gatewayCount

def remainder : Nat := allocator.slotsPerSuperframe % allocator.gatewayCount

def blockCount (ordinal : Nat) : Nat :=
  allocator.baseCount + if ordinal < allocator.remainder then 1 else 0

def allocateContiguous (ordinal : Nat) : Except SlotError (List Nat) :=
  let extraBefore := min ordinal allocator.remainder
  match (checked (ordinal * allocator.baseCount)).bind fun value => checked (value + extraBefore) with
  | none => .error .arithmeticOverflow
  | some start =>
    match checked (start + allocator.blockCount ordinal) with
    | none => .error .arithmeticOverflow
    | some stop => .ok (List.range' start (stop - start))

def allocateForOrdinal (ordinal : Nat) : Except SlotError (List Nat) :=
  if allocator.gatewayCount ≤ ordinal then .error .invalidOrdinal
  else
    match allocator.mode with
    | .interleaved => .ok (allocator.allocateInterleaved ordinal)
    | .contiguous => allocator.allocateContiguous ordinal

def slotOwnerInterleaved (slot : Nat) : Except SlotError Nat :=
  if allocator.slotsPerSuperframe ≤ slot then .error .invalidSlot
  else .ok (slot % allocator.gatewayCount)

def ownerFrom (slot : Nat) : List Nat → Nat → Except SlotError Nat
  | [], _ => .error .invalidSlot
  | ordinal :: ordinals, boundary =>
    match checked (boundary + allocator.blockCount ordinal) with
    | none => .error .arithmeticOverflow
    | some boundary => if slot < boundary then .ok ordinal else ownerFrom slot ordinals boundary

def slotOwnerContiguous (slot : Nat) : Except SlotError Nat :=
  if allocator.slotsPerSuperframe ≤ slot then .error .invalidSlot
  else allocator.ownerFrom slot (List.range allocator.gatewayCount) 0

def slotOwner (slot : Nat) : Except SlotError Nat :=
  match allocator.mode with
  | .interleaved => allocator.slotOwnerInterleaved slot
  | .contiguous => allocator.slotOwnerContiguous slot

def blockStart (ordinal : Nat) : Nat :=
  ordinal * allocator.baseCount + min ordinal allocator.remainder

variable {allocator}

section

variable (allocator : SlotAllocator)

theorem bounds : (1 ≤ allocator.slotsPerSuperframe ∧ allocator.slotsPerSuperframe ≤ 4096) ∧
      1 ≤ allocator.gatewayCount ∧ allocator.gatewayCount ≤ 256 := by
  have hvalid := allocator.valid
  rw [validateDimensions] at hvalid
  split at hvalid
  · cases hvalid
  split at hvalid
  · cases hvalid
  split at hvalid
  · cases hvalid
  rename_i hzero hslots hgateways
  rw [not_or] at hzero
  exact ⟨⟨Nat.pos_of_ne_zero hzero.1, Nat.not_lt.mp hslots⟩, Nat.pos_of_ne_zero hzero.2,
    Nat.not_lt.mp hgateways⟩

theorem blockStart_succ :
    allocator.blockStart (ordinal + 1) =
      allocator.blockStart ordinal + allocator.blockCount ordinal := by
  rw [blockStart, blockStart, blockCount, Nat.succ_mul]
  split <;> omega

theorem blockStart_mono (h : o ≤ o') : allocator.blockStart o ≤ allocator.blockStart o' := by
  have hmul := Nat.mul_le_mul_right allocator.baseCount h
  rw [blockStart, blockStart]
  omega

theorem blockStart_gatewayCount :
    allocator.blockStart allocator.gatewayCount = allocator.slotsPerSuperframe := by
  have hlt : allocator.remainder < allocator.gatewayCount := Nat.mod_lt _ allocator.bounds.2.1
  rw [blockStart, Nat.min_eq_right hlt.le]
  exact Nat.div_add_mod _ _

theorem blockStart_le (h : ordinal ≤ allocator.gatewayCount) :
    allocator.blockStart ordinal ≤ allocator.slotsPerSuperframe :=
  allocator.blockStart_gatewayCount ▸ allocator.blockStart_mono h

end

theorem checked_of_le (h : value ≤ 4096) : checked value = some value :=
  if_pos (by omega)

theorem allocateContiguous_eq (h : ordinal < allocator.gatewayCount) :
    allocator.allocateContiguous ordinal =
      .ok (List.range' (allocator.blockStart ordinal) (allocator.blockCount ordinal)) := by
  have hslots := allocator.bounds.1.2
  have hstart := allocator.blockStart_le h.le
  have hstop := allocator.blockStart_le h
  rw [blockStart_succ] at hstop
  have hmul : ordinal * allocator.baseCount ≤ 4096 := by
    rw [blockStart] at hstart
    omega
  rw [allocateContiguous, checked_of_le hmul, Option.bind_some]
  change (match checked (allocator.blockStart ordinal) with | none => _ | some start => _) = _
  rw [checked_of_le (hstart.trans hslots)]
  dsimp only
  rw [checked_of_le (hstop.trans hslots)]
  dsimp only
  rw [Nat.add_sub_cancel_left]

theorem ownerFrom_eq (hslot : slot < allocator.slotsPerSuperframe) :
    ∀ first, first + k = allocator.gatewayCount → allocator.blockStart first ≤ slot →
      (allocator.ownerFrom slot (List.range' first k) (allocator.blockStart first) = .ok ordinal ↔
        allocator.blockStart ordinal ≤ slot ∧ slot < allocator.blockStart (ordinal + 1)) := by
  induction k with
  | zero =>
    intro first hfirst hstart
    rw [Nat.add_zero] at hfirst
    rw [hfirst, blockStart_gatewayCount] at hstart
    exact absurd hslot (Nat.not_lt.mpr hstart)
  | succ k ih =>
    intro first hfirst hstart
    have hnext := allocator.blockStart_le (show first + 1 ≤ allocator.gatewayCount by omega)
    have hslots := allocator.bounds.1.2
    rw [List.range'_succ, ownerFrom, ← blockStart_succ, checked_of_le (hnext.trans hslots)]
    dsimp only
    by_cases hbefore : slot < allocator.blockStart (first + 1)
    · rw [if_pos hbefore]
      constructor
      · rintro ⟨⟩
        exact ⟨hstart, hbefore⟩
      · rintro ⟨hle, hlt⟩
        obtain h | h | h := Nat.lt_trichotomy ordinal first
        · have hmono := allocator.blockStart_mono (show ordinal + 1 ≤ first from h)
          omega
        · rw [h]
        · have hmono := allocator.blockStart_mono (show first + 1 ≤ ordinal from h)
          omega
    · rw [if_neg hbefore]
      exact ih (first + 1) (by omega) (Nat.not_lt.mp hbefore)

theorem slotOwnerContiguous_eq :
    allocator.slotOwnerContiguous slot = .ok ordinal ↔ slot < allocator.slotsPerSuperframe ∧
      allocator.blockStart ordinal ≤ slot ∧ slot < allocator.blockStart (ordinal + 1) := by
  rw [slotOwnerContiguous]
  split
  · rename_i hle
    exact ⟨nofun, fun h => absurd h.1 (Nat.not_lt.mpr hle)⟩
  · rename_i hlt
    have hzero : allocator.blockStart 0 = 0 := by simp [blockStart]
    have hsearch : allocator.ownerFrom slot (List.range' 0 allocator.gatewayCount)
        (allocator.blockStart 0) = .ok ordinal ↔ _ :=
      ownerFrom_eq (Nat.not_le.mp hlt) 0 (Nat.zero_add _)
        (hzero.trans_le (Nat.zero_le slot))
    rw [hzero, ← List.range_eq_range'] at hsearch
    rw [hsearch]
    exact ⟨fun h => ⟨Nat.not_le.mp hlt, h⟩, fun h => h.2⟩

theorem mem_stepBy (hstep : 0 < step) (hstart : start < step) :
    slot ∈ stepBy start stop step ↔ slot < stop ∧ slot % step = start := by
  rw [stepBy, List.mem_range']
  constructor
  · rintro ⟨i, hi, rfl⟩
    have hmul : step * (i + 1) ≤ stop - start + step - 1 :=
      (Nat.mul_le_mul_left step hi).trans (Nat.mul_div_le _ _)
    rw [Nat.mul_add] at hmul
    exact ⟨by omega, by rw [Nat.add_mul_mod_self_left, Nat.mod_eq_of_lt hstart]⟩
  · rintro ⟨hlt, hmod⟩
    have hdiv := Nat.div_add_mod slot step
    refine ⟨slot / step, ?_, by omega⟩
    rw [Nat.lt_div_iff_mul_lt hstep, Nat.mul_comm]
    omega

theorem length_stepBy (hstep : 0 < step) (hstart : start < step) :
    stop / step ≤ (stepBy start stop step).length ∧
      (stepBy start stop step).length ≤ stop / step + 1 := by
  rw [stepBy, List.length_range']
  constructor
  · by_cases hle : start ≤ stop
    · exact Nat.div_le_div_right (by omega)
    · rw [Nat.div_eq_of_lt (by omega)]
      exact Nat.zero_le _
  · rw [← Nat.add_div_right stop hstep]
    exact Nat.div_le_div_right (by omega)

def shares (allocator : SlotAllocator) (ordinal : Nat) : List Nat :=
  match allocator.mode with
  | .interleaved => stepBy ordinal allocator.slotsPerSuperframe allocator.gatewayCount
  | .contiguous => List.range' (allocator.blockStart ordinal) (allocator.blockCount ordinal)

theorem allocateForOrdinal_eq (h : ordinal < allocator.gatewayCount) :
    allocator.allocateForOrdinal ordinal = .ok (allocator.shares ordinal) := by
  rw [allocateForOrdinal, if_neg (Nat.not_le.mpr h), shares]
  cases allocator.mode with
  | interleaved => rfl
  | contiguous => exact allocateContiguous_eq h

theorem sharedOut_interleaved (h : allocator.mode = .interleaved) :
    SharedOut allocator.slotsPerSuperframe allocator.gatewayCount allocator.shares
      fun slot ordinal => allocator.slotOwner slot = .ok ordinal := by
  have hpos : 0 < allocator.gatewayCount := allocator.bounds.2.1
  have hshares : allocator.shares = fun ordinal =>
      stepBy ordinal allocator.slotsPerSuperframe allocator.gatewayCount := by
    funext ordinal
    rw [shares, h]
  have howner : ∀ slot ordinal, allocator.slotOwner slot = .ok ordinal ↔
      slot < allocator.slotsPerSuperframe ∧ slot % allocator.gatewayCount = ordinal := by
    intro slot ordinal
    rw [slotOwner, h]
    dsimp only
    rw [slotOwnerInterleaved]
    split
    · rename_i hle
      exact ⟨nofun, fun howner => absurd howner.1 (Nat.not_lt.mpr hle)⟩
    · rename_i hlt
      rw [Except.ok.injEq]
      exact ⟨fun heq => ⟨Nat.not_le.mp hlt, heq⟩, fun heq => heq.2⟩
  simp only [hshares, howner]
  refine sharedOut_of_owner ?_ ⟨_, fun ordinal ho => length_stepBy hpos ho⟩
    (fun ordinal ho slot => mem_stepBy hpos ho) ?_ ?_ ?_
  · intro ordinal _
    exact List.pairwise_lt_range' _ hpos
  · rintro slot _ ⟨hlt, rfl⟩
    exact ⟨hlt, Nat.mod_lt slot hpos⟩
  · exact fun slot hslot => ⟨_, hslot, rfl⟩
  · rintro slot _ _ ⟨-, rfl⟩ ⟨-, rfl⟩
    rfl

theorem sharedOut_contiguous (h : allocator.mode = .contiguous) :
    SharedOut allocator.slotsPerSuperframe allocator.gatewayCount allocator.shares
      fun slot ordinal => allocator.slotOwner slot = .ok ordinal := by
  have hshares : allocator.shares = fun ordinal =>
      List.range' (allocator.blockStart ordinal) (allocator.blockCount ordinal) := by
    funext ordinal
    rw [shares, h]
  have howner : ∀ slot ordinal, allocator.slotOwner slot = .ok ordinal ↔
      slot < allocator.slotsPerSuperframe ∧ allocator.blockStart ordinal ≤ slot ∧
        slot < allocator.blockStart (ordinal + 1) := by
    intro slot ordinal
    rw [slotOwner, h]
    exact slotOwnerContiguous_eq
  have hlt : ∀ slot ordinal, slot < allocator.slotsPerSuperframe →
      allocator.blockStart ordinal ≤ slot → ordinal < allocator.gatewayCount := by
    intro slot ordinal hslot hstart
    by_contra hge
    have hmono := allocator.blockStart_mono (Nat.not_lt.mp hge)
    rw [blockStart_gatewayCount] at hmono
    omega
  simp only [hshares, howner]
  refine sharedOut_of_owner ?_ ⟨allocator.baseCount, ?_⟩ ?_ ?_ ?_ ?_
  · exact fun ordinal _ => List.pairwise_lt_range' 1
  · intro ordinal _
    rw [List.length_range', blockCount]
    split <;> omega
  · intro ordinal ho slot
    have hstop := allocator.blockStart_le (show ordinal + 1 ≤ allocator.gatewayCount from ho)
    rw [List.mem_range'_1, blockStart_succ]
    rw [blockStart_succ] at hstop
    omega
  · rintro slot ordinal ⟨hslot, hstart, -⟩
    exact ⟨hslot, hlt slot ordinal hslot hstart⟩
  · intro slot hslot
    by_contra hnone
    have hbefore : ∀ ordinal, allocator.blockStart ordinal ≤ slot := by
      intro ordinal
      induction ordinal with
      | zero => simp [blockStart]
      | succ ordinal ih =>
        by_contra hlt
        exact hnone ⟨ordinal, hslot, ih, Nat.not_le.mp hlt⟩
    have hall := hbefore allocator.gatewayCount
    rw [blockStart_gatewayCount] at hall
    omega
  · intro slot o o' ho ho'
    have heq := (slotOwnerContiguous_eq.mpr ho).symm.trans (slotOwnerContiguous_eq.mpr ho')
    exact Except.ok.inj heq

theorem sharedOut (allocator : SlotAllocator) :
    SharedOut allocator.slotsPerSuperframe allocator.gatewayCount allocator.shares
      fun slot ordinal => allocator.slotOwner slot = .ok ordinal := by
  cases h : allocator.mode with
  | interleaved => exact sharedOut_interleaved h
  | contiguous => exact sharedOut_contiguous h

theorem tryNew_eq_ok (mode : AllocationMode) (h : validateDimensions slots gateways = .ok ()) :
    tryNew mode slots gateways = .ok ⟨mode, slots, gateways, h⟩ := by
  rw [tryNew]
  split
  · rename_i herror
    rw [h] at herror
    cases herror
  · rfl

theorem sharedOut_tryNew (mode : AllocationMode) (slots gateways : Nat)
    (hslots : 1 ≤ slots ∧ slots ≤ 4096) (hgateways : 1 ≤ gateways ∧ gateways ≤ 256) :
    ∃ allocator share, tryNew mode slots gateways = .ok allocator ∧
      (∀ ordinal < gateways, allocator.allocateForOrdinal ordinal = .ok (share ordinal)) ∧
      SharedOut slots gateways share fun slot ordinal => allocator.slotOwner slot = .ok ordinal := by
  have hfew : ¬maxSlotsPerSuperframe < slots := Nat.not_lt.mpr hslots.2
  have hfew' : ¬maxCoordinatingGateways < gateways := Nat.not_lt.mpr hgateways.2
  have hvalid : validateDimensions slots gateways = .ok () := by
    rw [validateDimensions, if_neg (by omega), if_neg hfew, if_neg hfew']
  exact ⟨⟨mode, slots, gateways, hvalid⟩, _, tryNew_eq_ok mode hvalid,
    fun ordinal ho => allocateForOrdinal_eq ho, sharedOut ⟨mode, slots, gateways, hvalid⟩⟩

/-- Five slots for seven gateways. -/
theorem sharedOut_tryNew_of_few :
    ∃ allocator share, tryNew .contiguous 5 7 = .ok allocator ∧
      (∀ ordinal < 7, allocator.allocateForOrdinal ordinal = .ok (share ordinal)) ∧
      SharedOut 5 7 share fun slot ordinal => allocator.slotOwner slot = .ok ordinal :=
  sharedOut_tryNew .contiguous 5 7 (by decide) (by decide)

end SlotAllocator

end Lichen.Gateway
