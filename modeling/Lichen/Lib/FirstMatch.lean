import Mathlib.Logic.Basic

namespace Lichen.Lib

variable {α : Type u} {p : α → Bool} {a : α} {f : α → α} {l : List α}

def upsert (p : α → Bool) (a : α) : List α → List α
  | [] => [a]
  | b :: l => if p b then a :: l else b :: upsert p a l

def modifyFirst (p : α → Bool) (f : α → α) : List α → List α
  | [] => []
  | b :: l => if p b then f b :: l else b :: modifyFirst p f l

theorem find?_upsert_self (h : p a) (l : List α) : (upsert p a l).find? p = some a := by
  induction l with
  | nil => rw [upsert, List.find?_cons_of_pos h]
  | cons b l ih =>
    rw [upsert]
    by_cases hb : p b
    · rw [if_pos hb, List.find?_cons_of_pos h]
    · rw [if_neg hb, List.find?_cons_of_neg hb, ih]

theorem find?_upsert_of_ne (ha : ¬q a) (hpq : ∀ b, p b → ¬q b) (l : List α) :
    (upsert p a l).find? q = l.find? q := by
  induction l with
  | nil => rw [upsert, List.find?_cons_of_neg ha]
  | cons b l ih =>
    rw [upsert]
    by_cases hb : p b
    · rw [if_pos hb, List.find?_cons_of_neg ha, List.find?_cons_of_neg (hpq b hb)]
    · rw [if_neg hb, List.find?_cons, List.find?_cons, ih]

theorem map_find?_modifyFirst (hq : ∀ b, q (f b) = q b) (hg : ∀ b, g (f b) = g b) (l : List α) :
    ((modifyFirst p f l).find? q).map g = (l.find? q).map g := by
  induction l with
  | nil => rfl
  | cons b l ih =>
    rw [modifyFirst]
    by_cases hb : p b
    · rw [if_pos hb, List.find?_cons, List.find?_cons, hq]
      cases q b
      · rfl
      · exact congrArg some (hg b)
    · rw [if_neg hb, List.find?_cons, List.find?_cons]
      cases q b
      · exact ih
      · rfl

end Lichen.Lib
