import Lichen.Lib.Run
import Lichen.Lib.SlidingWindow
import Mathlib.Data.List.Induction

namespace Lichen.Link

open Lichen.Lib

abbrev LinkSeqNum := UInt16

inductive ReplayWindowState where
  | empty
  | tracking

def ReplayWindowState.canTransitionTo : ReplayWindowState → ReplayWindowState → Bool
  | .empty, .tracking => true
  | .tracking, .tracking => true
  | _, _ => false

structure InvalidReplayWindowTransition where
  «from» : ReplayWindowState
  «to» : ReplayWindowState

/-- Bit `i` of `window` stands for `lastSeq - i`; a set bit was already accepted. -/
structure ReplayWindow where
  lastSeq : LinkSeqNum
  window : BitVec 32
  initialised : Bool
  state : ReplayWindowState

namespace ReplayWindow

def new : ReplayWindow := ⟨0, 0, false, .empty⟩

section

variable (w : ReplayWindow)

def transitionTo (next : ReplayWindowState) :
    Except InvalidReplayWindowTransition ReplayWindow :=
  if w.state.canTransitionTo next then .ok { w with state := next }
  else .error ⟨w.state, next⟩

@[simp] theorem transitionTo_tracking :
    w.transitionTo .tracking = .ok { w with state := .tracking } := by
  unfold transitionTo
  cases w.state <;> rfl

/-- `transition_to(Tracking).expect(..)`: the proof is what makes the `expect` safe. -/
def expectTracking : ReplayWindow :=
  (w.transitionTo .tracking).toOption.get (by simp [Except.toOption])

@[simp] theorem expectTracking_eq : w.expectTracking = { w with state := .tracking } := by
  simp [expectTracking, Except.toOption]

def accept (seq : LinkSeqNum) : Bool × ReplayWindow :=
  if !w.initialised then
    (true, { w with lastSeq := seq, window := 1#32, initialised := true }.expectTracking)
  else
    let diff : Int := seq.toNat - w.lastSeq.toNat
    if diff > 0 then
      let shift := diff.toNat
      let window := if shift ≥ 32 then 1#32 else w.window <<< shift ||| 1#32
      (true, { w with window, lastSeq := seq }.expectTracking)
    else if diff = 0 then (false, w)
    else
      let offset := (-diff).toNat
      if offset ≥ 32 then (false, w)
      else
        let bit := 1#32 <<< offset
        if w.window &&& bit ≠ 0 then (false, w)
        else (true, { w with window := w.window ||| bit }.expectTracking)

def persistentParts : Option (LinkSeqNum × BitVec 32) :=
  if w.initialised then some (w.lastSeq, w.window) else none

end

def fromPersistentParts (lastSeq : LinkSeqNum) (window : BitVec 32) : Option ReplayWindow :=
  if window = 0 ∨ window &&& 1#32 = 0 then none else some ⟨lastSeq, window, true, .tracking⟩

/-- The window after a history of offered numbers, with the numbers it accepted. -/
def offer (r : ReplayWindow × List LinkSeqNum) (seq : LinkSeqNum) :
    ReplayWindow × List LinkSeqNum :=
  let (accepted, w) := r.1.accept seq
  (w, if accepted then seq :: r.2 else r.2)

def offered (history : List LinkSeqNum) : ReplayWindow × List LinkSeqNum :=
  run offer (new, []) history

/-- The bitmap knows exactly the accepted numbers that are at most 31 below the greatest. -/
structure Tracks (w : ReplayWindow) (seen : List LinkSeqNum) : Prop where
  initialised : w.initialised = true
  tracking : w.state = .tracking
  last_mem : w.lastSeq ∈ seen
  le_last : ∀ a ∈ seen, a ≤ w.lastSeq
  covers : Covers w.window w.lastSeq.toNat {x | ∃ a ∈ seen, a.toNat = x}

theorem accept_fresh : new.accept seq = (true, ⟨seq, 1#32, true, .tracking⟩) := rfl

theorem Tracks.start : Tracks ⟨seq, 1#32, true, .tracking⟩ [seq] where
  initialised := rfl
  tracking := rfl
  last_mem := List.mem_singleton_self seq
  le_last := fun a ha => by rw [List.mem_singleton.mp ha]; exact UInt16.le_refl seq
  covers := by
    have hset : {x | ∃ a ∈ [seq], a.toNat = x} = {seq.toNat} := by
      ext x
      simp [eq_comm]
    rw [hset]
    exact Covers.single (by decide) _

theorem Tracks.toNat_le (h : Tracks w seen) : ∀ x ∈ {x | ∃ a ∈ seen, a.toNat = x},
    x ≤ w.lastSeq.toNat := by
  rintro x ⟨a, ha, rfl⟩
  exact UInt16.le_iff_toNat_le.mp (h.le_last a ha)

theorem setOf_cons (seq : LinkSeqNum) (seen : List LinkSeqNum) :
    {x | ∃ a ∈ seq :: seen, a.toNat = x} =
      insert seq.toNat {x | ∃ a ∈ seen, a.toNat = x} := by
  ext x
  simp [eq_comm]

theorem Tracks.mem_setOf (seq : LinkSeqNum) (seen : List LinkSeqNum) :
    seq.toNat ∈ {x | ∃ a ∈ seen, a.toNat = x} ↔ seq ∈ seen := by
  constructor
  · rintro ⟨a, ha, hav⟩
    exact UInt16.toNat_inj.mp hav ▸ ha
  · exact fun hmem => ⟨seq, hmem, rfl⟩

section

variable (h : Tracks w seen)

include h

theorem Tracks.accept_newer (hlt : w.lastSeq < seq) :
    (w.accept seq).1 = true ∧ Tracks (w.accept seq).2 (seq :: seen) := by
  have hnat : w.lastSeq.toNat < seq.toNat := UInt16.lt_iff_toNat_lt.mp hlt
  have hdiff : (seq.toNat : Int) - w.lastSeq.toNat > 0 := by omega
  have hshift : ((seq.toNat : Int) - w.lastSeq.toNat).toNat = seq.toNat - w.lastSeq.toNat := by
    omega
  have hle : ∀ a ∈ seq :: seen, a ≤ seq := by
    intro a ha
    cases ha with
    | head => exact UInt16.le_refl seq
    | tail _ ha => exact UInt16.le_of_lt (UInt16.lt_of_le_of_lt (h.le_last a ha) hlt)
  simp only [accept, h.initialised, Bool.not_true, Bool.false_eq_true, if_false, hdiff, if_true,
    expectTracking_eq, hshift, true_and]
  refine ⟨rfl, rfl, List.mem_cons_self, hle, ?_⟩
  rw [setOf_cons]
  split
  · exact Covers.restart h.toNat_le (by decide) ‹_›
  · exact h.covers.shift h.toNat_le hnat (by omega)

theorem Tracks.accept_older (hle : seq ≤ w.lastSeq)
    (hoff : w.lastSeq.toNat - seq.toNat ≤ 31) (hnew : seq ∉ seen) :
    (w.accept seq).1 = true ∧ Tracks (w.accept seq).2 (seq :: seen) := by
  have hnat : seq.toNat ≤ w.lastSeq.toNat := UInt16.le_iff_toNat_le.mp hle
  have hne : seq.toNat ≠ w.lastSeq.toNat := fun heq =>
    hnew (UInt16.toNat_inj.mp heq ▸ h.last_mem)
  have hdiff : ¬ (seq.toNat : Int) - w.lastSeq.toNat > 0 := by omega
  have hzero : ¬ (seq.toNat : Int) - w.lastSeq.toNat = 0 := by omega
  have hoffset : (-((seq.toNat : Int) - w.lastSeq.toNat)).toNat =
      w.lastSeq.toNat - seq.toNat := by omega
  have hbit : ¬ w.window &&& 1#32 <<< (w.lastSeq.toNat - seq.toNat) ≠ 0 := by
    rw [h.covers.test hnat (by omega), mem_setOf]
    exact hnew
  have hin : ¬ w.lastSeq.toNat - seq.toNat ≥ 32 := by omega
  have haccept : w.accept seq = (true, { w with
      window := w.window ||| 1#32 <<< (w.lastSeq.toNat - seq.toNat), state := .tracking }) := by
    simp only [accept, h.initialised, Bool.not_true, Bool.false_eq_true, if_false, hdiff, hzero,
      hoffset, hin]
    exact (if_neg hbit).trans (by rw [expectTracking_eq])
  rw [haccept]
  refine ⟨rfl, h.initialised, rfl, List.mem_cons_of_mem _ h.last_mem, ?_, ?_⟩
  · intro a ha
    cases ha with
    | head => exact hle
    | tail _ ha => exact h.le_last a ha
  · rw [setOf_cons]
    exact h.covers.mark hnat (by omega)

theorem Tracks.accept_rejected (hle : seq ≤ w.lastSeq)
    (hold : 31 < w.lastSeq.toNat - seq.toNat ∨ seq ∈ seen) : w.accept seq = (false, w) := by
  have hnat : seq.toNat ≤ w.lastSeq.toNat := UInt16.le_iff_toNat_le.mp hle
  have hdiff : ¬ (seq.toNat : Int) - w.lastSeq.toNat > 0 := by omega
  have hoffset : (-((seq.toNat : Int) - w.lastSeq.toNat)).toNat =
      w.lastSeq.toNat - seq.toNat := by omega
  simp only [accept, h.initialised, Bool.not_true, Bool.false_eq_true, if_false, hdiff, hoffset]
  split
  · rfl
  split
  · rfl
  · have hseen : seq ∈ seen := hold.resolve_left (by omega)
    refine if_pos ?_
    rw [← mem_setOf, ← h.covers.test hnat (by omega)] at hseen
    exact hseen

theorem Tracks.accept_cases (seq : LinkSeqNum) :
    (w.lastSeq < seq ∧ (w.accept seq).1 = true ∧ Tracks (w.accept seq).2 (seq :: seen)) ∨
    (seq ≤ w.lastSeq ∧ w.lastSeq.toNat - seq.toNat ≤ 31 ∧ seq ∉ seen ∧
      (w.accept seq).1 = true ∧ Tracks (w.accept seq).2 (seq :: seen)) ∨
    (seq ≤ w.lastSeq ∧ (31 < w.lastSeq.toNat - seq.toNat ∨ seq ∈ seen) ∧
      w.accept seq = (false, w)) := by
  by_cases hlt : w.lastSeq < seq
  · exact .inl ⟨hlt, h.accept_newer hlt⟩
  have hle : seq ≤ w.lastSeq := UInt16.not_lt.mp hlt
  by_cases hold : 31 < w.lastSeq.toNat - seq.toNat ∨ seq ∈ seen
  · exact .inr (.inr ⟨hle, hold, h.accept_rejected hle hold⟩)
  · rw [not_or, Nat.not_lt] at hold
    exact .inr (.inl ⟨hle, hold.1, hold.2, h.accept_older hle hold.1 hold.2⟩)

end

theorem accept_false (w : ReplayWindow) (seq : LinkSeqNum) :
    (w.accept seq).1 = false → (w.accept seq).2 = w := by
  simp only [accept]
  split
  · exact fun h => by cases h
  split
  · exact fun h => by cases h
  split
  · exact fun _ => rfl
  split
  · exact fun _ => rfl
  split
  · exact fun _ => rfl
  · exact fun h => by cases h

theorem Tracks.accept_true (h : Tracks w seen) (hok : (w.accept seq).1 = true) :
    seq ∉ seen ∧ Tracks (w.accept seq).2 (seq :: seen) := by
  obtain ⟨hlt, -, hnext⟩ | ⟨-, -, hnew, -, hnext⟩ | ⟨-, -, hrejected⟩ := h.accept_cases seq
  · exact ⟨fun hmem => UInt16.not_lt.mpr (h.le_last seq hmem) hlt, hnext⟩
  · exact ⟨hnew, hnext⟩
  · rw [hrejected] at hok
    cases hok

theorem persistentParts_eq_some {w : ReplayWindow} :
    w.persistentParts = some parts ↔ w.initialised = true ∧ (w.lastSeq, w.window) = parts := by
  rw [persistentParts, Option.ite_none_right_eq_some, Option.some.injEq]

theorem Tracks.fromPersistentParts (h : Tracks w seen) :
    ReplayWindow.fromPersistentParts w.lastSeq w.window = some w := by
  have hw : w = ⟨w.lastSeq, w.window, true, .tracking⟩ := by
    rw [← h.initialised, ← h.tracking]
  have hbit : w.window &&& 1#32 ≠ 0 := by
    have htest := (h.covers.test le_rfl (by rw [Nat.sub_self]; decide)).mpr
      ((mem_setOf _ _).mpr h.last_mem)
    rwa [Nat.sub_self, BitVec.shiftLeft_zero] at htest
  rw [ReplayWindow.fromPersistentParts, if_neg, ← hw]
  rintro (hzero | hclear)
  · rw [hzero] at hbit
    exact hbit (BitVec.zero_and)
  · exact hbit hclear

theorem Tracks.offer (h : Tracks w seen) (hnodup : seen.Nodup) :
    Tracks (offer (w, seen) seq).1 (offer (w, seen) seq).2 ∧ (offer (w, seen) seq).2.Nodup := by
  simp only [ReplayWindow.offer]
  cases hok : (w.accept seq).1 with
  | false =>
    rw [accept_false w seq hok]
    exact ⟨h, hnodup⟩
  | true =>
    obtain ⟨hnew, hnext⟩ := h.accept_true hok
    exact ⟨hnext, List.nodup_cons.mpr ⟨hnew, hnodup⟩⟩

theorem offered_invariant (history : List LinkSeqNum) :
    (history = [] ∧ offered history = (new, [])) ∨
    (Tracks (offered history).1 (offered history).2 ∧ (offered history).2.Nodup) := by
  induction history using List.reverseRecOn with
  | nil => exact .inl ⟨rfl, rfl⟩
  | append_singleton history seq ih =>
    have hsnoc : offered (history ++ [seq]) = offer (offered history) seq := by
      rw [offered, run_append]; rfl
    rw [hsnoc]
    refine .inr ?_
    obtain ⟨-, hfresh⟩ | ⟨htracks, hnodup⟩ := ih
    · rw [hfresh]
      exact ⟨Tracks.start, List.nodup_cons.mpr ⟨List.not_mem_nil, List.nodup_nil⟩⟩
    · exact htracks.offer hnodup

/-- A number is accepted exactly when it is first, above everything accepted, or an unaccepted
one at most 31 below the greatest; and no number is accepted twice. -/
theorem accept_exact (history : List LinkSeqNum) (seq : LinkSeqNum) :
    (((offered history).1.accept seq).1 = true ↔
      history = [] ∨
      (∀ a ∈ (offered history).2, a < seq) ∨
      (∃ m ∈ (offered history).2, (∀ a ∈ (offered history).2, a ≤ m) ∧
        seq ≤ m ∧ m.toNat - seq.toNat ≤ 31 ∧ seq ∉ (offered history).2)) ∧
    (offered history).2.Nodup := by
  obtain ⟨rfl, hfresh⟩ | ⟨htracks, hnodup⟩ := offered_invariant history
  · rw [hfresh]
    exact ⟨iff_of_true rfl (.inl rfl), List.nodup_nil⟩
  · refine ⟨⟨fun haccepted => ?_, ?_⟩, hnodup⟩
    · obtain ⟨hlt, -⟩ | ⟨hle, hoff, hnew, -⟩ | ⟨-, -, hrejected⟩ := htracks.accept_cases seq
      · exact .inr (.inl fun a ha => UInt16.lt_of_le_of_lt (htracks.le_last a ha) hlt)
      · exact .inr (.inr ⟨_, htracks.last_mem, htracks.le_last, hle, hoff, hnew⟩)
      · rw [hrejected] at haccepted
        cases haccepted
    · rintro (rfl | habove | ⟨m, hm, hmax, hle, hoff, hnew⟩)
      · rfl
      · exact (htracks.accept_newer (habove _ htracks.last_mem)).1
      · have hlast : m = (offered history).1.lastSeq :=
          UInt16.le_antisymm (htracks.le_last m hm) (hmax _ htracks.last_mem)
        subst hlast
        exact (htracks.accept_older hle hoff hnew).1

end ReplayWindow

end Lichen.Link
