import Mathlib.Data.List.Basic

namespace Lichen.Lib

open List

section Delimited

variable [DecidableEq α] {delimiter a : α} {stream content : List α}

/-- The segments of a stream that a delimiter ends; what follows the last one is not among them. -/
def frames (delimiter : α) (stream : List α) : List (List α) :=
  (stream.splitOn delimiter).dropLast

@[simp] theorem frames_nil : frames delimiter ([] : List α) = [] := rfl

@[simp] theorem frames_cons_self :
    frames delimiter (delimiter :: stream) = [] :: frames delimiter stream := by
  rw [frames, splitOn_cons_eq_if_modifyHead, if_pos BEq.rfl,
    dropLast_cons_of_ne_nil (splitOn_ne_nil _ _), frames]

theorem frames_cons_of_ne (h : a ≠ delimiter) :
    frames delimiter (a :: stream) = (frames delimiter stream).modifyHead (a :: ·) := by
  rw [frames, splitOn_cons_eq_if_modifyHead, if_neg (mt beq_iff_eq.mp h), frames]
  generalize stream.splitOn delimiter = segments
  match segments with
  | [] => rfl
  | [_] => rfl
  | _ :: _ :: _ => rfl

theorem frames_append_of_notMem (h : delimiter ∉ content) :
    frames delimiter (content ++ delimiter :: stream) = content :: frames delimiter stream := by
  rw [frames, splitOn_append_cons_self_of_not_mem h,
    dropLast_cons_of_ne_nil (splitOn_ne_nil _ _), frames]

end Delimited

section Clearing

variable {limit : Nat} {content : List α} {a : α}

/-- What a buffer holds that is cleared, the new element included, instead of growing beyond
`limit`. -/
def cleared (limit : Nat) (content : List α) : List α :=
  content.drop ((limit + 1) * (content.length / (limit + 1)))

theorem length_cleared : (cleared limit content).length = content.length % (limit + 1) := by
  rw [cleared, length_drop]
  have := Nat.div_add_mod content.length (limit + 1)
  omega

theorem cleared_of_le (h : content.length ≤ limit) : cleared limit content = content := by
  rw [cleared, Nat.div_eq_of_lt (Nat.lt_succ_of_le h), Nat.mul_zero, drop_zero]

theorem cleared_eq_nil_iff : cleared limit content = [] ↔ limit + 1 ∣ content.length := by
  rw [← length_eq_zero_iff, length_cleared, Nat.dvd_iff_mod_eq_zero]

theorem cleared_concat :
    cleared limit (content ++ [a]) =
      if limit ≤ (cleared limit content).length then [] else cleared limit content ++ [a] := by
  have hdiv := Nat.div_add_mod content.length (limit + 1)
  have hmod : content.length % (limit + 1) < limit + 1 := Nat.mod_lt _ (Nat.succ_pos limit)
  rw [length_cleared]
  split_ifs with h
  · rw [cleared_eq_nil_iff, length_append, length_singleton]
    refine ⟨content.length / (limit + 1) + 1, ?_⟩
    rw [Nat.mul_add]
    omega
  · have hsame : (content ++ [a]).length / (limit + 1) = content.length / (limit + 1) := by
      rw [length_append, length_singleton, Nat.succ_div_of_not_dvd]
      intro hdvd
      have := Nat.mod_eq_zero_of_dvd hdvd
      have : (content.length + 1) % (limit + 1) = content.length % (limit + 1) + 1 := by
        rw [Nat.add_mod, Nat.mod_eq_of_lt (show 1 < limit + 1 by omega)]
        exact Nat.mod_eq_of_lt (by omega)
      omega
    rw [cleared, hsame, drop_append_of_le_length (by omega), cleared]

end Clearing

section Filters

variable {xs : List α}

theorem filterMap_eq_filterMap_iff_of_imp (h : ∀ x y, g x = some y → f x = some y) :
    xs.filterMap f = xs.filterMap g ↔ ∀ x ∈ xs, f x = g x := by
  have hlength : ∀ xs : List α, (xs.filterMap g).length ≤ (xs.filterMap f).length := by
    intro xs
    induction xs with
    | nil => exact Nat.le_refl _
    | cons x xs ih =>
      cases hg : g x with
      | none =>
        cases hf : f x <;> simp only [filterMap_cons, hf, hg, length_cons] <;> omega
      | some y => simpa only [filterMap_cons, hg, h x y hg, length_cons] using
          Nat.succ_le_succ ih
  refine ⟨fun heq => ?_, filterMap_congr⟩
  induction xs with
  | nil => exact fun x hx => nomatch hx
  | cons x xs ih =>
    rw [forall_mem_cons]
    cases hg : g x with
    | some y =>
      rw [filterMap_cons_some hg, filterMap_cons_some (h x y hg)] at heq
      exact ⟨h x y hg, ih (tail_eq_of_cons_eq heq)⟩
    | none =>
      cases hf : f x with
      | none =>
        rw [filterMap_cons_none hg, filterMap_cons_none hf] at heq
        exact ⟨rfl, ih heq⟩
      | some =>
        rw [filterMap_cons_none hg, filterMap_cons_some hf] at heq
        have := congrArg List.length heq
        have := hlength xs
        rw [length_cons] at *
        omega

end Filters

end Lichen.Lib
