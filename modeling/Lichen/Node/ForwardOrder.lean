import Lichen.Lib.Fold
import Lichen.Node.ForwardBuffer

namespace Lichen.Node

open Lichen.Core Lichen.Lib List

/-- The time in milliseconds as the clock of the buffer shows it. -/
def stamp (ms : Nat) : UInt32 := UInt32.ofNat ms

theorem ForwardEntry.isExpired_stamp {entry : ForwardEntry}
    (h : entry.deadlineMs = some (stamp deadline)) (hahead : deadline < now + 2 ^ 31)
    (hpast : now < deadline + 2 ^ 32) :
    entry.isExpired (stamp now) = decide (deadline < now ∧ now < deadline + 2 ^ 31) := by
  rw [isExpired, h]
  simp only [← Bool.decide_and, decide_eq_decide, gt_iff_lt, UInt32.lt_iff_toNat_lt, stamp,
    UInt32.toNat_sub, UInt32.toNat_ofNat', UInt32.reduceToNat]
  omega

namespace ForwardBuffer

variable {buffer : ForwardBuffer}

def queued : ForwardCall → Option ForwardEntry
  | .queue packet sourceIid nowMs deadlineMs priority =>
    some ⟨packet, sourceIid, nowMs, deadlineMs, priority⟩
  | _ => none

theorem sublist_queued (calls : List ForwardCall) :
    (run step new calls).entries.Sublist (calls.filterMap queued) := by
  refine run_invariant_history (I := fun calls (buffer : ForwardBuffer) =>
    buffer.entries.Sublist (calls.filterMap queued)) (fun calls buffer call h => ?_) (.refl _) calls
  rw [filterMap_append]
  obtain hsub | ⟨_, sourceIid, nowMs, _, _, rfl⟩ := buffer.sublist_step call
  · exact (hsub.trans h).trans (sublist_append_left _ _)
  · have hfresh := (buffer.sublist_expire nowMs).trans h
    rw [step, queue]
    split
    · exact hfresh.trans (sublist_append_left _ _)
    · exact (((buffer.expire nowMs).sublist_makeRoom sourceIid).trans hfresh).append_right _

theorem take_fst (best : Option (ForwardEntry × Nat)) : (buffer.take best).1 = best.map Prod.fst := by
  cases best <;> rfl

theorem dequeue_fst : (buffer.dequeue nowMs).1 = (buffer.expire nowMs).entries.argmin
    fun entry => toLex (entry.priority.toNat, entry.queuedAtMs.toNat) := by
  rw [dequeue, take_fst, argmin_map (fun entry : ForwardEntry =>
    toLex (entry.priority.toNat, entry.queuedAtMs.toNat)), zipIdx_map_fst]

theorem dequeueForSource_fst : (buffer.dequeueForSource sourceIid nowMs).1 =
    ((buffer.expire nowMs).entries.filter (·.sourceIid = sourceIid)).argmin
      (·.queuedAtMs.toNat) := by
  have hmap := filter_map (p := fun entry : ForwardEntry => decide (entry.sourceIid = sourceIid))
    (f := Prod.fst) (l := (buffer.expire nowMs).entries.zipIdx)
  rw [zipIdx_map_fst] at hmap
  rw [dequeueForSource, take_fst, argmin_map (fun entry : ForwardEntry => entry.queuedAtMs.toNat)]
  exact congrArg _ hmap.symm

/-- The packets present lie in the order of their queueing, and one past its deadline is present
only `2 ^ 31` ms after it. The first of the smallest priority value is forwarded, and the first of
the source, exactly if its stamp is not above that of another such packet. -/
theorem forwarded_in_order_iff (calls : List ForwardCall) (now : Nat) (sourceIid : Iid) :
    let buffer := run step new calls
    let present := (buffer.expire (stamp now)).entries
    present.Sublist (calls.filterMap queued) ∧
    (∀ entry, (buffer.dequeue (stamp now)).1 = some entry ∨
      (buffer.dequeueForSource sourceIid (stamp now)).1 = some entry → entry ∈ present) ∧
    (∀ entry ∈ buffer.entries, ∀ deadline, entry.deadlineMs = some (stamp deadline) →
      deadline < now + 2 ^ 31 → now < deadline + 2 ^ 32 →
      (entry ∈ present ↔ now ≤ deadline ∨ deadline + 2 ^ 31 ≤ now)) ∧
    ((buffer.dequeue (stamp now)).1 = present.argmin (·.priority.toNat) ↔
      ∀ first ∈ present.argmin (·.priority.toNat), ∀ other ∈ present,
        other.priority = first.priority → first.queuedAtMs ≤ other.queuedAtMs) ∧
    ((buffer.dequeueForSource sourceIid (stamp now)).1 =
        present.find? (·.sourceIid = sourceIid) ↔
      ∀ first ∈ present.find? (·.sourceIid = sourceIid), ∀ other ∈ present,
        other.sourceIid = sourceIid → first.queuedAtMs ≤ other.queuedAtMs) := by
  intro buffer present
  refine ⟨(sublist_expire _ _).trans (sublist_queued calls), ?_,
    fun entry hentry deadline h hahead hpast => ?_, ?_, ?_⟩
  · rw [dequeue_fst, dequeueForSource_fst]
    rintro entry (h | h)
    · exact argmin_mem h
    · exact mem_of_mem_filter (argmin_mem h)
  · simp [present, expire, hentry, entry.isExpired_stamp h hahead hpast]
  · have hfiner : ∀ a b : ForwardEntry, toLex (a.priority.toNat, a.queuedAtMs.toNat) ≤
        toLex (b.priority.toNat, b.queuedAtMs.toNat) → a.priority.toNat ≤ b.priority.toNat :=
      fun a b h => (Prod.Lex.toLex_le_toLex'.mp h).1
    rw [dequeue_fst, argmin_eq_argmin_iff hfiner]
    refine forall₂_congr fun first hfirst => forall₂_congr fun other hother => ?_
    rw [Prod.Lex.toLex_le_toLex', and_iff_right (le_of_mem_argmin hother hfirst), UInt8.toNat_inj,
      UInt32.le_iff_toNat_le, eq_comm]
  · rw [dequeueForSource_fst, ← head?_filter, ← argmin_const 0,
      argmin_eq_argmin_iff fun _ _ _ => le_rfl]
    simp [UInt32.le_iff_toNat_le, present]

/-- Of two packets queued at `2 ^ 32 - 1` ms and at `2 ^ 32` ms the second one is forwarded first,
and a packet that was late already is forwarded `2 ^ 31` ms after its deadline. -/
theorem forwarded_out_of_order :
    let buffer := run step new [.queue [1] (sourceOf 1) (stamp (2 ^ 32 - 1)) none 3,
      .queue [2] (sourceOf 1) (stamp (2 ^ 32)) none 3]
    buffer.entries.map (·.packet) = [[1], [2]] ∧
    (buffer.dequeue (stamp (2 ^ 32))).1.map (·.packet) = some [2] ∧
    (buffer.dequeueForSource (sourceOf 1) (stamp (2 ^ 32))).1.map (·.packet) = some [2] ∧
    ((run step new [.queue [3] (sourceOf 1) (stamp 100) (some (stamp 90)) 3]).dequeue
      (stamp (90 + 2 ^ 31))).1.map (·.packet) = some [3] := by
  decide +kernel

end ForwardBuffer

end Lichen.Node
