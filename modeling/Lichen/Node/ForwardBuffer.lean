import Lichen.Core.Types
import Lichen.Lib.Run
import Mathlib.Algebra.BigOperators.Group.Finset.Basic
import Mathlib.Algebra.Order.BigOperators.Group.Finset
import Mathlib.Data.List.MinMax
import Mathlib.Data.Prod.Lex

namespace Lichen.Node

open Lichen.Core Lichen.Lib

def maxForwardingSources : Nat := 8

def maxPacketsPerSource : Nat := 2

inductive ForwardError
  | queueFull

structure ForwardEntry where
  packet : Bytes
  sourceIid : Iid
  queuedAtMs : UInt32
  deadlineMs : Option UInt32
  priority : UInt8
  deriving DecidableEq

def ForwardEntry.isExpired (entry : ForwardEntry) (nowMs : UInt32) : Bool :=
  match entry.deadlineMs with
  | some deadline =>
    let elapsed := nowMs - deadline
    elapsed > 0 && elapsed < 0x80000000
  | none => false

structure ForwardBuffer where
  entries : List ForwardEntry
  packetsBackpressure : Nat

namespace ForwardBuffer

def new : ForwardBuffer := ⟨[], 0⟩

def expire (buffer : ForwardBuffer) (nowMs : UInt32) : ForwardBuffer :=
  { buffer with entries := buffer.entries.filter fun entry => !entry.isExpired nowMs }

def countForSource (buffer : ForwardBuffer) (sourceIid : Iid) : Nat :=
  buffer.entries.countP fun entry => entry.sourceIid = sourceIid

def see (seen : List Iid) (entry : ForwardEntry) : List Iid :=
  if entry.sourceIid ∉ seen ∧ seen.length < maxForwardingSources then seen ++ [entry.sourceIid]
  else seen

section

variable (buffer : ForwardBuffer)

def distinctSourceCount : Nat := (buffer.entries.foldl see []).length

def oldest : Option (ForwardEntry × Nat) :=
  buffer.entries.zipIdx.argmin fun entry => entry.1.queuedAtMs.toNat

def evictOldestSourcePacket : ForwardBuffer :=
  { buffer with entries := buffer.entries.eraseIdx ((buffer.oldest.map Prod.snd).getD 0) }

def makeRoom (sourceIid : Iid) : ForwardBuffer :=
  if buffer.countForSource sourceIid = 0 ∧ buffer.distinctSourceCount ≥ maxForwardingSources then
    buffer.evictOldestSourcePacket
  else buffer

def queue (packet : Bytes) (sourceIid : Iid) (nowMs : UInt32)
    (deadlineMs : Option UInt32) (priority : UInt8) : Except ForwardError Unit × ForwardBuffer :=
  let buffer := buffer.expire nowMs
  if buffer.countForSource sourceIid ≥ maxPacketsPerSource then
    (.error .queueFull, { buffer with packetsBackpressure := buffer.packetsBackpressure + 1 })
  else
    let buffer := buffer.makeRoom sourceIid
    let entry : ForwardEntry := ⟨packet, sourceIid, nowMs, deadlineMs, priority⟩
    (.ok (), { buffer with entries := buffer.entries ++ [entry] })

def take (best : Option (ForwardEntry × Nat)) :
    Option ForwardEntry × ForwardBuffer :=
  match best with
  | none => (none, buffer)
  | some (entry, index) => (some entry, { buffer with entries := buffer.entries.eraseIdx index })

def dequeue (nowMs : UInt32) : Option ForwardEntry × ForwardBuffer :=
  let buffer := buffer.expire nowMs
  buffer.take <| buffer.entries.zipIdx.argmin fun entry =>
    toLex (entry.1.priority.toNat, entry.1.queuedAtMs.toNat)

def dequeueForSource (sourceIid : Iid) (nowMs : UInt32) :
    Option ForwardEntry × ForwardBuffer :=
  let buffer := buffer.expire nowMs
  buffer.take <| (buffer.entries.zipIdx.filter fun entry => entry.1.sourceIid = sourceIid).argmin
    fun entry => entry.1.queuedAtMs.toNat

def clearSource (sourceIid : Iid) : ForwardBuffer :=
  { buffer with entries := buffer.entries.filter fun entry => entry.sourceIid ≠ sourceIid }

def clear : ForwardBuffer := { buffer with entries := [] }

end

end ForwardBuffer

inductive ForwardCall
  | queue (packet : Bytes) (sourceIid : Iid) (nowMs : UInt32) (deadlineMs : Option UInt32)
    (priority : UInt8)
  | dequeue (nowMs : UInt32)
  | dequeueForSource (sourceIid : Iid) (nowMs : UInt32)
  | expire (nowMs : UInt32)
  | clearSource (sourceIid : Iid)
  | clear

namespace ForwardBuffer

def step (buffer : ForwardBuffer) : ForwardCall → ForwardBuffer
  | .queue packet sourceIid nowMs deadlineMs priority =>
    (buffer.queue packet sourceIid nowMs deadlineMs priority).2
  | .dequeue nowMs => (buffer.dequeue nowMs).2
  | .dequeueForSource sourceIid nowMs => (buffer.dequeueForSource sourceIid nowMs).2
  | .expire nowMs => buffer.expire nowMs
  | .clearSource sourceIid => buffer.clearSource sourceIid
  | .clear => buffer.clear

def sources (buffer : ForwardBuffer) : Finset Iid := (buffer.entries.map (·.sourceIid)).toFinset

structure Within (buffer : ForwardBuffer) : Prop where
  perSource : ∀ sourceIid, buffer.countForSource sourceIid ≤ maxPacketsPerSource
  sources : buffer.sources.card ≤ maxForwardingSources

/-- When a new source needs room, the oldest packet is the only one of its source. -/
def Evictable (buffer : ForwardBuffer) : ForwardCall → Prop
  | .queue _ sourceIid nowMs _ _ =>
    let fresh := buffer.expire nowMs
    fresh.countForSource sourceIid = 0 → maxForwardingSources ≤ fresh.distinctSourceCount →
      ∀ victim ∈ fresh.oldest, fresh.countForSource victim.1.sourceIid = 1
  | _ => True

instance (buffer : ForwardBuffer) (call : ForwardCall) : Decidable (buffer.Evictable call) :=
  match call with
  | .queue .. => inferInstanceAs (Decidable (_ → _ → _))
  | .dequeue _ | .dequeueForSource .. | .expire _ | .clearSource _ | .clear =>
    inferInstanceAs (Decidable True)

variable {buffer buffer' : ForwardBuffer}

theorem mem_sources :
    sourceIid ∈ buffer.sources ↔ ∃ entry ∈ buffer.entries, entry.sourceIid = sourceIid := by
  rw [sources, List.mem_toFinset, List.mem_map]

theorem countForSource_eq_zero :
    buffer.countForSource sourceIid = 0 ↔ sourceIid ∉ buffer.sources := by
  simp [countForSource, mem_sources, List.countP_eq_zero]

section Sublist

variable (h : buffer'.entries.Sublist buffer.entries)

include h

theorem countForSource_of_sublist (sourceIid : Iid) :
    buffer'.countForSource sourceIid ≤ buffer.countForSource sourceIid :=
  h.countP_le

theorem sources_of_sublist : buffer'.sources ⊆ buffer.sources := by
  intro sourceIid hmem
  obtain ⟨entry, hentry, heq⟩ := mem_sources.mp hmem
  exact mem_sources.mpr ⟨entry, h.subset hentry, heq⟩

theorem Within.of_sublist (hwithin : buffer.Within) : buffer'.Within :=
  ⟨fun sourceIid => Nat.le_trans (countForSource_of_sublist h sourceIid)
      (hwithin.perSource sourceIid),
    Nat.le_trans (Finset.card_le_card (sources_of_sublist h)) hwithin.sources⟩

end Sublist

theorem sublist_expire (buffer : ForwardBuffer) (nowMs : UInt32) :
    (buffer.expire nowMs).entries.Sublist buffer.entries :=
  List.filter_sublist

theorem sublist_take : (buffer.take best).2.entries.Sublist buffer.entries := by
  cases best with
  | none => exact List.Sublist.refl _
  | some => exact List.eraseIdx_sublist _ _

theorem sublist_makeRoom (buffer : ForwardBuffer) (sourceIid : Iid) :
    (buffer.makeRoom sourceIid).entries.Sublist buffer.entries := by
  rw [makeRoom]
  split
  · exact List.eraseIdx_sublist _ _
  · exact List.Sublist.refl _

theorem subset_foldl_see (seen : List Iid) (entries : List ForwardEntry) :
    seen ⊆ entries.foldl see seen := by
  induction entries generalizing seen with
  | nil => exact List.Subset.refl _
  | cons entry entries ih =>
    refine List.Subset.trans ?_ (ih _)
    rw [see]
    split
    · exact List.subset_append_left _ _
    · exact List.Subset.refl _

theorem mem_foldl_see {entries : List ForwardEntry}
    (hroom : (entries.foldl see seen).length < maxForwardingSources) :
    ∀ entry ∈ entries, entry.sourceIid ∈ entries.foldl see seen := by
  induction entries generalizing seen with
  | nil => exact nofun
  | cons first entries ih =>
    intro entry hentry
    rw [List.foldl_cons] at hroom ⊢
    obtain rfl | hentry := List.mem_cons.mp hentry
    · apply subset_foldl_see
      rw [see]
      split
      · exact List.mem_append_right _ List.mem_cons_self
      · rename_i hkept
        by_contra habsent
        have hfull : ¬seen.length < maxForwardingSources := fun hlt => hkept ⟨habsent, hlt⟩
        have hseen : see seen entry = seen := if_neg hkept
        -- a full array stays as it is
        have hstay : ∀ entries : List ForwardEntry, entries.foldl see seen = seen := by
          intro entries
          induction entries with
          | nil => rfl
          | cons entry entries ih =>
            rw [List.foldl_cons, see, if_neg fun h => hfull h.2]
            exact ih
        rw [hseen, hstay] at hroom
        exact hfull hroom
    · exact ih hroom entry hentry

theorem card_sources_lt (h : buffer.distinctSourceCount < maxForwardingSources) :
    buffer.sources.card < maxForwardingSources := by
  have hsub : buffer.sources ⊆ (buffer.entries.foldl see []).toFinset := by
    intro sourceIid hmem
    obtain ⟨entry, hentry, rfl⟩ := mem_sources.mp hmem
    exact List.mem_toFinset.mpr (mem_foldl_see h entry hentry)
  calc
    buffer.sources.card ≤ _ := Finset.card_le_card hsub
    _ ≤ buffer.distinctSourceCount := List.toFinset_card_le _
    _ < maxForwardingSources := h

theorem card_sources_evict (hvictim : buffer.oldest = some victim)
    (honly : buffer.countForSource victim.1.sourceIid = 1) :
    buffer.evictOldestSourcePacket.sources.card < buffer.sources.card := by
  have hget : buffer.entries[victim.2]? = some victim.1 :=
    List.mem_zipIdx_iff_getElem?.mp (List.argmin_mem hvictim)
  obtain ⟨hlt, hentry⟩ := List.getElem?_eq_some_iff.mp hget
  have hentries : buffer.evictOldestSourcePacket.entries = buffer.entries.eraseIdx victim.2 := by
    rw [evictOldestSourcePacket, hvictim]
    rfl
  have hgone : victim.1.sourceIid ∉ buffer.evictOldestSourcePacket.sources := by
    rw [← countForSource_eq_zero, countForSource, hentries]
    have hperm := List.getElem_cons_eraseIdx_perm hlt
    rw [countForSource, ← hperm.countP_eq, hentry, List.countP_cons_of_pos (by simp)] at honly
    omega
  have hsub : buffer.evictOldestSourcePacket.sources ⊆ buffer.sources :=
    sources_of_sublist (List.eraseIdx_sublist _ _)
  have hmem : victim.1.sourceIid ∈ buffer.sources :=
    mem_sources.mpr ⟨victim.1, List.mem_of_getElem? hget, rfl⟩
  exact Finset.card_lt_card ⟨hsub, fun hsup => hgone (hsup hmem)⟩

theorem exists_oldest (h : 0 < buffer.entries.length) : ∃ victim, buffer.oldest = some victim := by
  refine Option.ne_none_iff_exists'.mp fun hnone => ?_
  rw [oldest, List.argmin_eq_none, List.zipIdx_eq_nil_iff] at hnone
  rw [hnone] at h
  exact Nat.lt_irrefl 0 h

theorem card_sources_makeRoom (hwithin : buffer.Within)
    (hevict : maxForwardingSources ≤ buffer.distinctSourceCount →
      ∀ victim ∈ buffer.oldest, buffer.countForSource victim.1.sourceIid = 1)
    (hnew : buffer.countForSource sourceIid = 0) :
    (buffer.makeRoom sourceIid).sources.card < maxForwardingSources := by
  by_cases hfull : maxForwardingSources ≤ buffer.distinctSourceCount
  · rw [makeRoom, if_pos ⟨hnew, hfull⟩]
    by_cases hempty : buffer.entries = []
    · rw [distinctSourceCount, hempty] at hfull
      cases hfull
    · obtain ⟨victim, hvictim⟩ := exists_oldest (List.length_pos_iff.mpr hempty)
      have hlt := card_sources_evict hvictim (hevict hfull victim hvictim)
      exact Nat.lt_of_lt_of_le hlt hwithin.sources
  · rw [makeRoom, if_neg fun h => hfull h.2]
    exact card_sources_lt (Nat.lt_of_not_le hfull)

theorem countForSource_push (buffer : ForwardBuffer) (entry : ForwardEntry) (sourceIid : Iid) :
    ({ buffer with entries := buffer.entries ++ [entry] } : ForwardBuffer).countForSource
        sourceIid =
      buffer.countForSource sourceIid + if entry.sourceIid = sourceIid then 1 else 0 := by
  simp [countForSource, List.countP_append, List.countP_singleton]

theorem sources_push (buffer : ForwardBuffer) (entry : ForwardEntry) :
    ({ buffer with entries := buffer.entries ++ [entry] } : ForwardBuffer).sources =
      insert entry.sourceIid buffer.sources := by
  ext sourceIid
  simp [sources]

theorem perSource_queue (packet : Bytes) (sourceIid : Iid) (nowMs : UInt32)
    (deadlineMs : Option UInt32) (priority : UInt8)
    (h : ∀ source, buffer.countForSource source ≤ maxPacketsPerSource) (source : Iid) :
    (buffer.queue packet sourceIid nowMs deadlineMs priority).2.countForSource source ≤
      maxPacketsPerSource := by
  have hfresh : ∀ source, (buffer.expire nowMs).countForSource source ≤ maxPacketsPerSource :=
    fun source => Nat.le_trans (countForSource_of_sublist (buffer.sublist_expire nowMs) source)
      (h source)
  rw [queue]
  split
  · exact hfresh source
  · rename_i hquota
    rw [countForSource_push]
    have hroom := countForSource_of_sublist ((buffer.expire nowMs).sublist_makeRoom sourceIid) source
    split
    · rename_i heq
      rw [← heq] at hroom ⊢
      exact Nat.succ_le_of_lt (Nat.lt_of_le_of_lt hroom (Nat.lt_of_not_le hquota))
    · exact Nat.le_trans hroom (hfresh source)

theorem Within.queue (hwithin : buffer.Within)
    (hevict : buffer.Evictable (.queue packet sourceIid nowMs deadlineMs priority)) :
    (buffer.queue packet sourceIid nowMs deadlineMs priority).2.Within := by
  refine ⟨perSource_queue packet sourceIid nowMs deadlineMs priority hwithin.perSource, ?_⟩
  have hfresh : (buffer.expire nowMs).Within := hwithin.of_sublist (buffer.sublist_expire nowMs)
  rw [ForwardBuffer.queue]
  split
  · exact hfresh.sources
  rw [sources_push]
  by_cases hnew : (buffer.expire nowMs).countForSource sourceIid = 0
  · have hlt := card_sources_makeRoom hfresh (hevict hnew) hnew
    exact Nat.le_trans (Finset.card_insert_le _ _) hlt
  · -- a known source makes no room
    have hroom : (buffer.expire nowMs).makeRoom sourceIid = buffer.expire nowMs :=
      if_neg fun h => hnew h.1
    have hknown : sourceIid ∈ (buffer.expire nowMs).sources :=
      not_not.mp (mt countForSource_eq_zero.mpr hnew)
    rw [hroom, Finset.insert_eq_of_mem hknown]
    exact hfresh.sources

theorem sublist_step (buffer : ForwardBuffer) (call : ForwardCall) :
    (buffer.step call).entries.Sublist buffer.entries ∨
      ∃ packet sourceIid nowMs deadlineMs priority,
        call = .queue packet sourceIid nowMs deadlineMs priority := by
  cases call with
  | queue => exact .inr ⟨_, _, _, _, _, rfl⟩
  | dequeue nowMs => exact .inl (sublist_take.trans (buffer.sublist_expire nowMs))
  | dequeueForSource sourceIid nowMs =>
    exact .inl (sublist_take.trans (buffer.sublist_expire nowMs))
  | expire nowMs => exact .inl (buffer.sublist_expire nowMs)
  | clearSource => exact .inl List.filter_sublist
  | clear => exact .inl (List.nil_sublist _)

theorem perSource_run (calls : List ForwardCall) (source : Iid) :
    (run step new calls).countForSource source ≤ maxPacketsPerSource := by
  refine run_invariant (I := fun buffer : ForwardBuffer => ∀ source,
    buffer.countForSource source ≤ maxPacketsPerSource) ?_ (fun _ => Nat.zero_le _) calls source
  intro buffer call h
  obtain hsub | ⟨_, _, _, _, _, rfl⟩ := buffer.sublist_step call
  · exact fun source => Nat.le_trans (countForSource_of_sublist hsub source) (h source)
  · exact perSource_queue _ _ _ _ _ h

theorem Within.step (hwithin : buffer.Within) (call : ForwardCall)
    (hevict : buffer.Evictable call) : (buffer.step call).Within := by
  obtain hsub | ⟨_, _, _, _, _, rfl⟩ := buffer.sublist_step call
  · exact hwithin.of_sublist hsub
  · exact hwithin.queue hevict

theorem Within.length_le (hwithin : buffer.Within) :
    buffer.entries.length ≤ maxPacketsPerSource * maxForwardingSources := by
  have hcount : ∀ source ∈ buffer.sources,
      (buffer.entries.map (·.sourceIid)).count source ≤ maxPacketsPerSource := by
    intro source _
    have hsource := hwithin.perSource source
    rw [List.count, List.countP_map]
    simpa only [countForSource, Function.comp_def, beq_eq_decide] using hsource
  calc
    buffer.entries.length = ∑ source ∈ buffer.sources,
        (buffer.entries.map (·.sourceIid)).count source := by
      rw [ForwardBuffer.sources, List.sum_toFinset_count_eq_length, List.length_map]
    _ ≤ buffer.sources.card * maxPacketsPerSource := Finset.sum_le_card_nsmul _ _ _ hcount
    _ ≤ maxPacketsPerSource * maxForwardingSources := by
      rw [Nat.mul_comm]
      exact Nat.mul_le_mul_left _ hwithin.sources

theorem within_new : new.Within := ⟨fun _ => Nat.zero_le _, Nat.zero_le _⟩

/-- No source has more than its packets, and while each eviction frees a whole source the buffer
keeps to its announced size. -/
theorem within_size (calls : List ForwardCall) :
    let buffer := run step new calls
    (∀ source, buffer.countForSource source ≤ 2) ∧
      (Steps Evictable step new calls → buffer.sources.card ≤ 8 ∧ buffer.entries.length ≤ 16) := by
  refine ⟨perSource_run calls, fun hevict => ?_⟩
  have hwithin : (run step new calls).Within :=
    run_invariant_of_steps (fun _ call h hcall => h.step call hcall) within_new calls hevict
  exact ⟨hwithin.sources, hwithin.length_le⟩

def sourceOf (b : UInt8) : Iid := ⟨[2, 0, 0, 0, 0, 0, 0, b], rfl⟩

def queueAll (nowMs : UInt32) (sources : List UInt8) : List ForwardCall :=
  sources.map fun b => .queue [b] (sourceOf b) nowMs none 3

theorem within_size_of_nine :
    let buffer := run step new (queueAll 1000 [1, 2, 3, 4, 5, 6, 7, 8, 9])
    buffer.sources.card ≤ 8 ∧ buffer.entries.length ≤ 16 :=
  (within_size _).2 (by decide +kernel)

/-- The ninth source takes one of two packets of the first source, then queues a second one. -/
theorem oversize_of_second_packets :
    let buffer := run step new (queueAll 1000 [1, 1, 2, 2, 3, 3, 4, 4, 5, 5, 6, 6, 7, 7, 8, 8, 9, 9])
    buffer.sources.card = 9 ∧ buffer.entries.length = 17 := by
  decide +kernel

end ForwardBuffer

end Lichen.Node
