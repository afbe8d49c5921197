import Lichen.Gateway.RecipientStore
import Lichen.Lib.SlidingWindow
import Mathlib.Order.Bounds.Basic

namespace Lichen.Gateway.RecipientReplayState

open Lichen.Lib

variable {state : RecipientReplayState} {sequence : UInt64} {S : Set Nat}

@[simp] theorem length_encoded : state.encoded.length = 13 := by simp [encoded]

theorem getD_encoded (back : Bytes) :
    (state.encoded ++ back).getD 12 0 = if state.initialized then 1 else 0 := by
  simp [encoded, List.getElem?_append]

theorem decoded_encoded : decoded state.encoded = state := by
  have hhighest : beNat (state.encoded.extract 0 8) = state.highest.toNat :=
    beNat_field [] _ (show state.highest.toNat < 256 ^ 8 from state.highest.toNat_lt)
  have hwindow : beNat (state.encoded.extract 8 12) = state.window.toNat := by
    have h := beNat_field (beBytes 8 state.highest.toNat)
      [if state.initialized then 1 else 0] (show state.window.toNat < 256 ^ 4 from state.window.isLt)
    rwa [length_beBytes] at h
  have hinitialized := @getD_encoded state []
  rw [List.append_nil] at hinitialized
  rw [decoded, hhighest, hwindow, hinitialized, UInt64.ofNat_toNat, BitVec.ofNat_toNat,
    BitVec.setWidth_eq]
  cases state with
  | mk highest window initialized => cases initialized <;> rfl

/-- The state knows the numbers of `S` that are at most 31 below the greatest. -/
structure Tracks (state : RecipientReplayState) (S : Set Nat) : Prop where
  eq_empty : state.initialized = false → state = .empty ∧ S = ∅
  isGreatest : state.initialized = true → IsGreatest S state.highest.toNat
  covers : state.initialized = true → Covers state.window state.highest.toNat S

theorem tracks_empty : Tracks .empty ∅ := ⟨fun _ => ⟨rfl, rfl⟩, nofun, nofun⟩

theorem isReplay_of_uninitialized (h : state.initialized = false) :
    state.isReplay sequence = false := by
  rw [isReplay, h]
  rfl

namespace Tracks

theorem isReplay_iff (h : state.Tracks S) : state.isReplay sequence = true ↔
    state.initialized = true ∧ sequence.toNat ≤ state.highest.toNat ∧
      (sequence.toNat + 32 ≤ state.highest.toNat ∨ sequence.toNat ∈ S) := by
  cases hinit : state.initialized with
  | false => simp [isReplay_of_uninitialized hinit]
  | true =>
    rw [isReplay, hinit, Bool.not_true, Bool.false_or]
    by_cases hlt : state.highest < sequence
    · have hnat := UInt64.lt_iff_toNat_lt.mp hlt
      simp only [hlt, decide_true, if_true, Bool.false_eq_true, false_iff]
      omega
    · have hle : sequence.toNat ≤ state.highest.toNat := by
        rw [UInt64.lt_iff_toNat_lt] at hlt
        omega
      simp only [hlt, decide_false, Bool.false_eq_true, if_false, Bool.or_eq_true,
        decide_eq_true_eq, hle, true_and]
      by_cases hfar : 32 ≤ state.highest.toNat - sequence.toNat
      · exact ⟨fun _ => .inl (by omega), fun _ => .inl hfar⟩
      · rw [(h.covers hinit).test hle (by omega)]
        refine or_congr ?_ Iff.rfl
        omega

theorem next (h : state.Tracks S) (hnew : state.isReplay sequence = false) :
    (state.next sequence).Tracks (insert sequence.toNat S) := by
  cases hinit : state.initialized with
  | false =>
    rw [(h.eq_empty hinit).2, RecipientReplayState.next, hinit]
    refine ⟨nofun, fun _ => ?_, fun _ => ?_⟩
    · rw [insert_empty_eq]
      exact isGreatest_singleton
    · rw [insert_empty_eq]
      exact Covers.single (by decide) _
  | true =>
    have hbound : ∀ s ∈ S, s ≤ state.highest.toNat := (h.isGreatest hinit).2
    rw [RecipientReplayState.next, hinit, Bool.not_true, if_neg Bool.false_ne_true]
    by_cases hlt : state.highest < sequence
    · have hnat := UInt64.lt_iff_toNat_lt.mp hlt
      rw [if_pos hlt]
      refine ⟨nofun, fun _ => ⟨Set.mem_insert _ _, ?_⟩, fun _ => ?_⟩
      · rintro s (rfl | hs)
        · exact Nat.le_refl _
        · exact (hbound s hs).trans hnat.le
      · dsimp only
        split_ifs with hfar
        · exact Covers.restart hbound (by decide) hfar
        · exact (h.covers hinit).shift hbound hnat (by omega)
    · have hle : sequence.toNat ≤ state.highest.toNat := by
        rw [UInt64.lt_iff_toNat_lt] at hlt
        omega
      have hnear : ¬sequence.toNat + 32 ≤ state.highest.toNat := fun hfar => by
        rw [h.isReplay_iff.mpr ⟨hinit, hle, .inl hfar⟩] at hnew
        cases hnew
      rw [if_neg hlt]
      refine ⟨nofun, fun _ => ⟨?_, ?_⟩, fun _ => ?_⟩
      · exact Set.mem_insert_of_mem _ (h.isGreatest hinit).1
      · rintro s (rfl | hs)
        · exact hle
        · exact hbound s hs
      · exact (h.covers hinit).mark hle (by omega)

end Tracks

theorem initialized_next (sequence : UInt64) : (state.next sequence).initialized = true := by
  cases hinit : state.initialized with
  | false => rw [next, hinit, Bool.not_false, if_pos rfl]
  | true =>
    rw [next, hinit, Bool.not_true, if_neg Bool.false_ne_true]
    split_ifs <;> rfl

theorem highest_le_next (hinit : state.initialized = true) (sequence : UInt64) :
    state.highest.toNat ≤ (state.next sequence).highest.toNat := by
  rw [next, hinit, Bool.not_true, if_neg Bool.false_ne_true]
  split_ifs with hlt
  · exact (UInt64.lt_iff_toNat_lt.mp hlt).le
  · exact Nat.le_refl _

theorem isReplay_next_of_isReplay (h : state.Tracks S) (hnew : state.isReplay sequence = false)
    (hreplay : state.isReplay earlier = true) : (state.next sequence).isReplay earlier = true := by
  obtain ⟨hinit, hle, hknown⟩ := h.isReplay_iff.mp hreplay
  have hhighest := highest_le_next hinit sequence
  refine (h.next hnew).isReplay_iff.mpr ⟨initialized_next _, by omega, ?_⟩
  obtain hfar | hmem := hknown
  · exact .inl (by omega)
  · exact .inr (Set.mem_insert_of_mem _ hmem)

theorem isReplay_next_self (h : state.Tracks S) (hnew : state.isReplay sequence = false) :
    (state.next sequence).isReplay sequence = true := by
  have hnext := h.next hnew
  have hgreatest := hnext.isGreatest (initialized_next _)
  exact hnext.isReplay_iff.mpr
    ⟨initialized_next _, hgreatest.2 (Set.mem_insert _ _), .inr (Set.mem_insert _ _)⟩

theorem not_precedes_next (sequence : UInt64) : (state.next sequence).precedes state = false := by
  rw [precedes, initialized_next]
  cases hinit : state.initialized with
  | false => rfl
  | true =>
    have hle := highest_le_next hinit sequence
    have hnot : ¬(state.next sequence).highest < state.highest := by
      rw [UInt64.lt_iff_toNat_lt]
      omega
    simp only [Bool.not_true, Bool.false_and, BEq.rfl, Bool.true_and, decide_eq_false hnot,
      Bool.false_or, Bool.and_eq_false_iff, decide_eq_false_iff_not]
    rw [next, hinit, Bool.not_true, if_neg Bool.false_ne_true]
    split_ifs with hlt
    · refine .inl fun heq => ?_
      exact (UInt64.lt_iff_toNat_lt.mp hlt).ne (congrArg UInt64.toNat heq).symm
    · refine .inr (not_not.mpr ?_)
      ext i
      rw [BitVec.getElem_and, BitVec.getElem_or]
      cases state.window[i] <;> simp

end Lichen.Gateway.RecipientReplayState
