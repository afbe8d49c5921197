import Mathlib.Data.Set.Insert

namespace Lichen.Lib

def Covers (w : BitVec n) (head : Nat) (S : Set Nat) : Prop :=
  ∀ i, i < n → (w.getLsbD i = true ↔ i ≤ head ∧ head - i ∈ S)

namespace Covers

variable {w : BitVec n} {head : Nat} {S : Set Nat}

theorem getLsbD_one (hn : 0 < n) : (1#n).getLsbD i = decide (i = 0) := by
  rw [BitVec.getLsbD_one]
  simp [hn]

theorem single (hn : 0 < n) (head : Nat) : Covers (1#n) head {head} := by
  intro i hi
  rw [getLsbD_one hn, decide_eq_true_iff, Set.mem_singleton_iff]
  omega

section

variable (h : Covers w head S)

include h

theorem mem_iff (hx : x ≤ head) (hi : head - x < n) : w.getLsbD (head - x) = true ↔ x ∈ S := by
  rw [h _ hi, Nat.sub_sub_self hx]
  exact and_iff_right (Nat.sub_le head x)

theorem test (hx : x ≤ head) (hi : head - x < n) : w &&& 1#n <<< (head - x) ≠ 0 ↔ x ∈ S := by
  rw [← h.mem_iff hx hi, ← BitVec.twoPow_eq, BitVec.and_twoPow]
  have hne : BitVec.twoPow n (head - x) ≠ 0 := fun hzero => by
    have hbit := BitVec.getLsbD_twoPow (w := n) (head - x) (head - x)
    simp [hzero, hi] at hbit
  cases hbit : w.getLsbD (head - x)
  · simp
  · simp only [if_true, ne_eq, hne, not_false_eq_true]

theorem mark (hx : x ≤ head) (hi : head - x < n) :
    Covers (w ||| (1#n <<< (head - x))) head (insert x S) := by
  intro j hj
  rw [BitVec.getLsbD_or, ← BitVec.twoPow_eq, BitVec.getLsbD_twoPow, decide_eq_true hi,
    Bool.true_and, Bool.or_eq_true, h j hj, decide_eq_true_iff, Set.mem_insert_iff]
  constructor
  · rintro (⟨hle, hmem⟩ | rfl)
    · exact ⟨hle, .inr hmem⟩
    · exact ⟨Nat.sub_le head x, .inl (Nat.sub_sub_self hx)⟩
  · rintro ⟨hle, rfl | hmem⟩
    · exact .inr (by omega)
    · exact .inl ⟨hle, hmem⟩

theorem shift (hS : ∀ s ∈ S, s ≤ head) (hlt : head < head') (hn : head' - head < n) :
    Covers (w <<< (head' - head) ||| 1#n) head' (insert head' S) := by
  intro i hi
  rw [BitVec.getLsbD_or, BitVec.getLsbD_shiftLeft, getLsbD_one (by omega), Bool.or_eq_true,
    decide_eq_true_iff, Set.mem_insert_iff]
  by_cases hsmall : i < head' - head
  · -- the freshly shifted-in slots lie above every earlier member
    have hnot : head' - i ∉ S := fun hmem => by
      have := hS _ hmem
      omega
    simp only [hsmall, hi, decide_true, Bool.not_true, Bool.and_false, Bool.false_and,
      Bool.false_eq_true, false_or, hnot, or_false]
    omega
  · have hbit := h (i - (head' - head)) (by omega)
    have hsub : head - (i - (head' - head)) = head' - i := by omega
    simp only [hsmall, hi, decide_true, decide_false, Bool.not_false, Bool.true_and, hbit, hsub]
    constructor
    · rintro (⟨hle, hmem⟩ | rfl)
      · exact ⟨by omega, .inr hmem⟩
      · omega
    · rintro ⟨hle, heq | hmem⟩
      · exact .inr (by omega)
      · exact .inl ⟨by have := hS _ hmem; omega, hmem⟩

end

theorem restart (hS : ∀ s ∈ S, s ≤ head) (hn : 0 < n) (hfar : n ≤ head' - head) :
    Covers (1#n) head' (insert head' S) := by
  intro i hi
  rw [getLsbD_one hn, decide_eq_true_iff, Set.mem_insert_iff]
  constructor
  · rintro rfl
    exact ⟨Nat.zero_le _, .inl rfl⟩
  · rintro ⟨hle, heq | hmem⟩
    · omega
    · have := hS _ hmem
      omega

end Covers

end Lichen.Lib
