import Lichen.Lib.Bytes

namespace Lichen.Lib

open List

variable {α : Type u} {l : List α} {a b : Nat}

def Spans (l : List α) (a b : Nat) (piece : List α) : Prop :=
  b = a + piece.length ∧ l.drop a = piece ++ l.drop b

theorem spans_nil : Spans l a b [] ↔ b = a := by
  constructor
  · exact And.left
  · rintro rfl
    exact ⟨rfl, rfl⟩

theorem spans_self (l : List α) : Spans l 0 l.length l := by
  constructor
  · rw [Nat.zero_add]
  · rw [drop_zero, drop_length, append_nil]

theorem Spans.append (hp : Spans l a b p) (hq : Spans l b c q) : Spans l a c (p ++ q) := by
  constructor
  · rw [length_append, hq.1, hp.1, Nat.add_assoc]
  · rw [hp.2, hq.2, append_assoc]

theorem Spans.of_drop (h : l.drop a = p ++ q) : Spans l a (a + p.length) p := by
  refine ⟨rfl, ?_⟩
  rw [h, ← drop_drop, h, drop_left]

theorem Spans.split (h : Spans l a c (p ++ q)) :
    Spans l a (a + p.length) p ∧ Spans l (a + p.length) c q := by
  have hfirst : Spans l a (a + p.length) p := .of_drop (h.2.trans (append_assoc p q _))
  refine ⟨hfirst, ?_, ?_⟩
  · rw [h.1, length_append, Nat.add_assoc]
  · have hwhole := h.2
    rw [hfirst.2, append_assoc] at hwhole
    exact append_cancel_left hwhole

theorem spans_cons (d : α) :
    Spans l a b (x :: p) ↔ a < l.length ∧ l.getD a d = x ∧ Spans l (a + 1) b p := by
  constructor
  · intro h
    have hlt : a < l.length := by
      by_contra hge
      have hempty := h.2
      rw [drop_eq_nil_of_le (by omega)] at hempty
      exact (cons_ne_nil _ _ hempty.symm).elim
    obtain ⟨hb, hdrop⟩ := h
    rw [drop_eq_getD_cons hlt d] at hdrop
    obtain ⟨hx, hrest⟩ := List.cons.inj hdrop
    exact ⟨hlt, hx, by rw [hb, length_cons]; omega, hrest⟩
  · rintro ⟨hlt, rfl, hb, hdrop⟩
    exact ⟨by rw [hb, length_cons]; omega, by rw [drop_eq_getD_cons hlt d, hdrop]; rfl⟩

theorem spans_extract (hab : a ≤ b) (hb : b ≤ l.length) : Spans l a b (l.extract a b) :=
  ⟨by rw [length_extract_of_le hb]; omega, drop_eq_extract_append l hab⟩

theorem Spans.extract_eq (h : Spans l a b p) : l.extract a b = p := by
  rw [List.extract, h.2, h.1, Nat.add_sub_cancel_left, take_left]

theorem Spans.le_length (h : Spans l a b p) (ha : a ≤ l.length) : b ≤ l.length := by
  have hlength := congrArg List.length h.2
  rw [length_append, length_drop, length_drop] at hlength
  have hb := h.1
  omega

end Lichen.Lib
