import Mathlib.Data.List.MinMax

namespace Lichen.Lib

open List

def minBy (lt : α → α → Bool) : List α → Option α
  | [] => none
  | a :: l => some (l.foldl (fun best b => if lt b best then b else best) a)

theorem foldl_min_mem (lt : α → α → Bool) (a : α) (l : List α) :
    l.foldl (fun best b => if lt b best then b else best) a ∈ a :: l := by
  induction l generalizing a with
  | nil => exact mem_singleton_self a
  | cons b l ih =>
    rw [foldl_cons]
    split
    · exact mem_cons_of_mem a (ih b)
    · obtain heq | hmem := mem_cons.mp (ih a)
      · rw [heq]
        exact mem_cons_self
      · exact mem_cons_of_mem a (mem_cons_of_mem b hmem)

theorem mem_of_minBy (h : minBy lt l = some a) : a ∈ l := by
  cases l with
  | nil => cases h
  | cons b l =>
    cases h
    exact foldl_min_mem lt b l

theorem minBy_eq_none : minBy lt l = none ↔ l = [] := by
  cases l with
  | nil | cons => simp [minBy]

section

variable [Preorder κ] {f : α → κ} {lt : α → α → Bool}

theorem foldl_min_greatest (hlt : ∀ a b, lt a b = true → f b ≤ f a)
    (hge : ∀ a b, lt a b = false → f a ≤ f b) (a : α) (l : List α) :
    ∀ b ∈ a :: l, f b ≤ f (l.foldl (fun best b => if lt b best then b else best) a) := by
  induction l generalizing a with
  | nil =>
    intro b hb
    rw [mem_singleton.mp hb]
    exact le_refl _
  | cons c l ih =>
    intro b hb
    rw [foldl_cons]
    cases hc : lt c a with
    | true =>
      rw [if_pos rfl]
      obtain rfl | hb := mem_cons.mp hb
      · exact (hlt c b hc).trans (ih c c mem_cons_self)
      · exact ih c b hb
    | false =>
      rw [if_neg Bool.false_ne_true]
      obtain rfl | hb := mem_cons.mp hb
      · exact ih b b mem_cons_self
      · obtain rfl | hb := mem_cons.mp hb
        · exact (hge b a hc).trans (ih a a mem_cons_self)
        · exact ih a b (mem_cons_of_mem a hb)

theorem minBy_greatest (hlt : ∀ a b, lt a b = true → f b ≤ f a)
    (hge : ∀ a b, lt a b = false → f a ≤ f b) (h : minBy lt l = some a) : ∀ b ∈ l, f b ≤ f a := by
  cases l with
  | nil => cases h
  | cons c l =>
    cases h
    exact foldl_min_greatest hlt hge c l

end

section

variable {f : σ → α → Option σ} {I : σ → Prop} {l : List α}

@[simp] theorem foldlM_option_cons (a : α) : (a :: l).foldlM f s = (f s a).bind (l.foldlM f) := by
  rw [foldlM_cons]
  rfl

theorem foldlM_invariant (hstep : ∀ a ∈ l, ∀ s s', I s → f s a = some s' → I s') (hs : I s)
    (hrun : l.foldlM f s = some s') : I s' := by
  induction l generalizing s with
  | nil =>
    cases hrun
    exact hs
  | cons a l ih =>
    rw [foldlM_option_cons, Option.bind_eq_some_iff] at hrun
    obtain ⟨t, ha, hrun⟩ := hrun
    exact ih (fun b hb => hstep b (mem_cons_of_mem a hb))
      (hstep a mem_cons_self s t hs ha) hrun

theorem foldlM_total (hstep : ∀ a ∈ l, ∀ s, I s → ∃ s', f s a = some s' ∧ I s') (hs : I s) :
    ∃ s', l.foldlM f s = some s' ∧ I s' := by
  induction l generalizing s with
  | nil => exact ⟨s, rfl, hs⟩
  | cons a l ih =>
    obtain ⟨_, ha, ht⟩ := hstep a mem_cons_self s hs
    rw [foldlM_option_cons, ha, Option.bind_some]
    exact ih (fun b hb => hstep b (mem_cons_of_mem a hb)) ht

end

section Argmin

variable [LinearOrder κ] [LinearOrder ι] {f : α → κ} {g : α → ι} {l : List α}

theorem argmin_map (f : α → κ) (g : β → α) (l : List β) :
    (l.argmin fun b => f (g b)).map g = (l.map g).argmin f := by
  induction l with
  | nil => rfl
  | cons b l ih =>
    rw [map_cons, argmin_cons, argmin_cons, ← ih]
    cases l.argmin fun b => f (g b) with
    | none => rfl
    | some => exact apply_ite (Option.map g) _ _ _

/-- A finer order has the same first least element exactly if that is least in the finer order. -/
theorem argmin_eq_argmin_iff [DecidableEq α] (hle : ∀ a b, f a ≤ f b → g a ≤ g b) :
    l.argmin f = l.argmin g ↔ ∀ a ∈ l.argmin g, ∀ b ∈ l, f a ≤ f b := by
  constructor
  · intro heq a ha b hb
    exact le_of_mem_argmin hb (heq ▸ ha)
  · intro hleast
    cases ha : l.argmin g with
    | none => rw [argmin_eq_none.mp ha, argmin_nil]
    | some a =>
      obtain ⟨hmem, -, hfirst⟩ := mem_argmin_iff.mp ha
      exact mem_argmin_iff.mpr ⟨hmem, hleast a ha, fun b hb h => hfirst b hb (hle b a h)⟩

theorem argmin_const [DecidableEq α] (c : κ) (l : List α) : l.argmin (fun _ => c) = l.head? := by
  cases l with
  | nil => rfl
  | cons a l => exact mem_argmin_iff.mpr ⟨mem_cons_self, fun _ _ => le_rfl, fun _ _ _ => by simp⟩

end Argmin

end Lichen.Lib
