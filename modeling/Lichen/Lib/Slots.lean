import Mathlib.Data.List.Range

namespace Lichen.Lib

variable {α : Type u} {κ : Type v} {key : α → κ} {slots : List (Option α)} {a : α}

def DistinctKeys (key : α → κ) (slots : List (Option α)) : Prop :=
  ∀ (i j : Nat) a b, slots[i]? = some (some a) → slots[j]? = some (some b) → key a = key b → i = j

theorem distinctKeys_replicate (key : α → κ) (n : Nat) :
    DistinctKeys key (List.replicate n none) := by
  intro i j a b ha
  have hmem := List.eq_of_mem_replicate (List.mem_of_getElem? ha)
  cases hmem

theorem DistinctKeys.anti (h : DistinctKeys key slots)
    (hsub : ∀ (i : Nat) a, slots'[i]? = some (some a) → slots[i]? = some (some a)) :
    DistinctKeys key slots' :=
  fun i j a b ha hb hkey => h i j a b (hsub i a ha) (hsub j b hb) hkey

theorem getElem?_set_none {index i : Nat} (h : (slots.set index none)[i]? = some (some a)) :
    slots[i]? = some (some a) := by
  rw [List.getElem?_set] at h
  split at h
  · split at h <;> cases h
  · exact h

theorem DistinctKeys.set (h : DistinctKeys key slots)
    (hown : ∀ i b, slots[i]? = some (some b) → key b = key a → i = index) :
    DistinctKeys key (slots.set index (some a)) := by
  have hslot : ∀ i b, (slots.set index (some a))[i]? = some (some b) →
      i = index ∧ b = a ∨ i ≠ index ∧ slots[i]? = some (some b) := by
    intro i b hb
    rw [List.getElem?_set] at hb
    split at hb
    · rename_i heq
      split at hb
      · cases hb
        exact .inl ⟨heq.symm, rfl⟩
      · cases hb
    · exact .inr ⟨Ne.symm ‹_›, hb⟩
  intro i j b c hb hc hkey
  obtain ⟨hi, hb⟩ | ⟨hi, hb⟩ := hslot i b hb
  · obtain ⟨hj, -⟩ | ⟨hj, hc⟩ := hslot j c hc
    · rw [hi, hj]
    · exact absurd (hown j c hc (hb ▸ hkey.symm)) hj
  · obtain ⟨hj, hc⟩ | ⟨hj, hc⟩ := hslot j c hc
    · exact absurd (hown i b hb (hc ▸ hkey)) hi
    · exact h i j b c hb hc hkey

theorem DistinctKeys.eq_findIdx? [DecidableEq κ] (h : DistinctKeys key slots)
    (hfind : slots.findIdx? (·.any (key · = k)) = some index)
    (hb : slots[i]? = some (some b)) (hkey : key b = k) : i = index := by
  obtain ⟨hlt, hany, -⟩ := List.findIdx?_eq_some_iff_getElem.mp hfind
  obtain ⟨c, hc, hck⟩ := (Option.any_eq_true _ _).mp hany
  have hslot : slots[index]? = some (some c) := by rw [List.getElem?_eq_getElem hlt, hc]
  exact h i index b c hb hslot (hkey.trans (of_decide_eq_true hck).symm)

/-- The numbers below `n` shared out evenly among `count` owners, in ascending lists. -/
structure SharedOut (n count : Nat) (share : Nat → List Nat) (owner : Nat → Nat → Prop) : Prop where
  ascending : ∀ o < count, (share o).Pairwise (· < ·)
  disjoint : ∀ o < count, ∀ o' < count, o ≠ o' → (share o).Disjoint (share o')
  covering : ∀ s, s < n ↔ ∃ o < count, s ∈ share o
  balanced : ∀ o < count, ∀ o' < count, (share o).length ≤ (share o').length + 1
  owned : ∀ o < count, ∀ s, s ∈ share o ↔ owner s o

theorem sharedOut_of_owner (hascending : ∀ o < count, (share o).Pairwise (· < ·))
    (hbalanced : ∃ k, ∀ o < count, k ≤ (share o).length ∧ (share o).length ≤ k + 1)
    (howned : ∀ o < count, ∀ s, s ∈ share o ↔ owner s o)
    (hlt : ∀ s o, owner s o → s < n ∧ o < count)
    (hsome : ∀ s < n, ∃ o, owner s o) (hunique : ∀ s o o', owner s o → owner s o' → o = o') :
    SharedOut n count share owner where
  ascending := hascending
  disjoint := by
    intro o ho o' ho' hne s hs hs'
    exact hne (hunique s o o' ((howned o ho s).mp hs) ((howned o' ho' s).mp hs'))
  covering := by
    intro s
    constructor
    · intro hs
      obtain ⟨o, ho⟩ := hsome s hs
      have hcount := (hlt s o ho).2
      exact ⟨o, hcount, (howned o hcount s).mpr ho⟩
    · rintro ⟨o, ho, hs⟩
      exact (hlt s o ((howned o ho s).mp hs)).1
  balanced := by
    intro o ho o' ho'
    obtain ⟨k, hk⟩ := hbalanced
    exact (hk o ho).2.trans (Nat.succ_le_succ (hk o' ho').1)
  owned := howned

end Lichen.Lib
