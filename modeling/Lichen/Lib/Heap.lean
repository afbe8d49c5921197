import Mathlib.Data.List.Sort

namespace Lichen.Lib

open List

section

variable {α : Type}

/-- The items of a list are ordered linearly, but for those that compare as equal. -/
structure Linear (cmp : α → α → Ordering) (items : List α) : Prop where
  swap : ∀ a ∈ items, ∀ b ∈ items, cmp b a = (cmp a b).swap
  trans : ∀ a ∈ items, ∀ b ∈ items, ∀ c ∈ items,
    cmp a b ≠ .lt → cmp b c ≠ .lt → cmp a c ≠ .lt

theorem Linear.refl {cmp : α → α → Ordering} (h : Linear cmp items) (ha : a ∈ items) :
    cmp a a ≠ .lt := by
  intro hlt
  have hswap := h.swap a ha a ha
  rw [hlt] at hswap
  cases hswap

theorem Linear.mono {cmp : α → α → Ordering} (h : Linear cmp items) (hsub : items' ⊆ items) :
    Linear cmp items' where
  swap a ha b hb := h.swap a (hsub ha) b (hsub hb)
  trans a ha b hb c hc := h.trans a (hsub ha) b (hsub hb) c (hsub hc)

/-- A binary heap with room for `capacity` items and the greatest item on top. Its internal order is
kept as long as the comparison is a linear order of what it holds. -/
structure BinaryHeap (cmp : α → α → Ordering) (capacity : Nat) where
  Carrier : Type
  new : Carrier
  push : Carrier → α → Carrier
  pop : Carrier → Option (α × Carrier)
  peek : Carrier → Option α
  iter : Carrier → List α
  Ordered : Carrier → Prop
  iter_new : iter new = []
  ordered_new : Ordered new
  iter_push {heap : Carrier} (a : α) :
    (iter heap).length < capacity → (iter (push heap a)).Perm (a :: iter heap)
  ordered_push {heap : Carrier} {a : α} :
    Ordered heap → Linear cmp (a :: iter heap) → Ordered (push heap a)
  pop_eq_none {heap : Carrier} : pop heap = none ↔ iter heap = []
  iter_pop {heap heap' : Carrier} {a : α} :
    pop heap = some (a, heap') → (iter heap).Perm (a :: iter heap')
  pop_max {heap heap' : Carrier} {a : α} : Ordered heap → Linear cmp (iter heap) →
    pop heap = some (a, heap') → ∀ b ∈ iter heap, cmp a b ≠ .lt
  ordered_pop {heap heap' : Carrier} {a : α} : Ordered heap → Linear cmp (iter heap) →
    pop heap = some (a, heap') → Ordered heap'
  peek_eq {heap : Carrier} : peek heap = (pop heap).map Prod.fst

namespace BinaryHeap

variable {cmp : α → α → Ordering} {capacity : Nat} (B : BinaryHeap cmp capacity)

def drainN : Nat → B.Carrier → List α × B.Carrier
  | 0, heap => ([], heap)
  | n + 1, heap =>
    match B.pop heap with
    | none => ([], heap)
    | some (a, heap) => (a :: (drainN n heap).1, (drainN n heap).2)

def drain (heap : B.Carrier) : List α × B.Carrier := B.drainN (B.iter heap).length heap

def pushAll (heap : B.Carrier) (items : List α) : B.Carrier := items.foldl B.push heap

variable {B}

theorem exists_pop (h : B.iter heap ≠ []) : ∃ a heap', B.pop heap = some (a, heap') := by
  cases hpop : B.pop heap with
  | none => exact absurd (B.pop_eq_none.mp hpop) h
  | some popped => exact ⟨popped.1, popped.2, rfl⟩

theorem drainN_spec (hn : (B.iter heap).length = n) (horder : B.Ordered heap)
    (hlinear : Linear cmp (B.iter heap)) : (B.drainN n heap).1.Perm (B.iter heap) ∧
      (B.drainN n heap).1.Pairwise (cmp · · ≠ .lt) ∧
      B.iter (B.drainN n heap).2 = [] ∧ B.Ordered (B.drainN n heap).2 := by
  induction n generalizing heap with
  | zero =>
    have hempty := length_eq_zero_iff.mp hn
    refine ⟨?_, .nil, hempty, horder⟩
    rw [hempty]
    exact .nil
  | succ n ih =>
    obtain ⟨a, heap', hpop⟩ := exists_pop (ne_nil_of_length_eq_add_one hn)
    have hperm := B.iter_pop hpop
    have hlength : (B.iter heap').length = n := by
      rw [hperm.length_eq] at hn
      exact Nat.succ.inj hn
    have hsub : B.iter heap' ⊆ B.iter heap := fun b hb =>
      hperm.mem_iff.mpr (mem_cons_of_mem a hb)
    obtain ⟨hdrain, hpairwise, hempty, horder'⟩ :=
      ih hlength (B.ordered_pop horder hlinear hpop) (hlinear.mono hsub)
    rw [drainN, hpop]
    refine ⟨(hdrain.cons a).trans hperm.symm, pairwise_cons.mpr ⟨fun b hb => ?_, hpairwise⟩,
      hempty, horder'⟩
    exact B.pop_max horder hlinear hpop b (hsub (hdrain.mem_iff.mp hb))

theorem drain_spec (horder : B.Ordered heap) (hlinear : Linear cmp (B.iter heap)) :
    (B.drain heap).1.Perm (B.iter heap) ∧ (B.drain heap).1.Pairwise (cmp · · ≠ .lt) ∧
      B.iter (B.drain heap).2 = [] ∧ B.Ordered (B.drain heap).2 :=
  drainN_spec rfl horder hlinear

theorem pushAll_spec (hroom : items.length + (B.iter heap).length ≤ capacity)
    (horder : B.Ordered heap) (hlinear : Linear cmp (items ++ B.iter heap)) :
    (B.iter (B.pushAll heap items)).Perm (items ++ B.iter heap) ∧
      B.Ordered (B.pushAll heap items) := by
  induction items generalizing heap with
  | nil => exact ⟨.refl _, horder⟩
  | cons a items ih =>
    rw [length_cons] at hroom
    have hpush : (B.iter (B.push heap a)).Perm (a :: B.iter heap) := B.iter_push a (by omega)
    have hperm : (items ++ B.iter (B.push heap a)).Perm (a :: items ++ B.iter heap) :=
      (hpush.append_left items).trans perm_middle
    have hsub : a :: B.iter heap ⊆ a :: items ++ B.iter heap :=
      cons_subset_cons a (subset_append_right items _)
    obtain ⟨hitems, horder'⟩ := ih (by rw [hpush.length_eq, length_cons]; omega)
      (B.ordered_push horder (hlinear.mono hsub)) (hlinear.mono hperm.subset)
    exact ⟨hitems.trans hperm, horder'⟩

theorem rebuild_spec (hkept : kept.Sublist (B.drain heap).1)
    (hroom : (B.iter heap).length ≤ capacity) (horder : B.Ordered heap)
    (hlinear : Linear cmp (B.iter heap)) : (B.iter (B.pushAll (B.drain heap).2 kept)).Perm kept ∧
      B.Ordered (B.pushAll (B.drain heap).2 kept) := by
  obtain ⟨hperm, -, hempty, horder'⟩ := drain_spec horder hlinear
  have hlength := hkept.length_le
  rw [hperm.length_eq] at hlength
  have hsub : kept ++ B.iter (B.drain heap).2 ⊆ B.iter heap := by
    rw [hempty, append_nil]
    exact fun a ha => hperm.mem_iff.mp (hkept.subset ha)
  obtain ⟨hkept', horder'⟩ := pushAll_spec (by rw [hempty, length_nil]; omega) horder'
    (hlinear.mono hsub)
  rw [hempty, append_nil] at hkept'
  exact ⟨hkept', horder'⟩

theorem pairwise_orderedInsert (hlinear : Linear cmp (a :: items))
    (h : items.Pairwise (cmp · · ≠ .lt)) :
    (items.orderedInsert (cmp · · ≠ .lt) a).Pairwise (cmp · · ≠ .lt) := by
  have ha : a ∈ a :: items := mem_cons_self
  induction items with
  | nil => exact pairwise_singleton _ a
  | cons b items ih =>
    have hb : b ∈ a :: b :: items := mem_cons_of_mem a mem_cons_self
    obtain ⟨hfirst, hrest⟩ := pairwise_cons.mp h
    rw [orderedInsert_cons]
    split
    · rename_i hge
      refine pairwise_cons.mpr ⟨forall_mem_cons.mpr ⟨hge, fun c hc => ?_⟩, h⟩
      exact hlinear.trans a ha b hb c (mem_cons_of_mem a (mem_cons_of_mem b hc)) hge (hfirst c hc)
    · rename_i hlt
      have hsub : a :: items ⊆ a :: b :: items := cons_subset_cons a (subset_cons_self b items)
      refine pairwise_cons.mpr ⟨fun c hc => ?_, ih (hlinear.mono hsub) hrest mem_cons_self⟩
      obtain rfl | hc := (mem_orderedInsert _).mp hc
      · rw [hlinear.swap _ ha b hb, not_not.mp hlt]
        exact nofun
      · exact hfirst c hc

def uncons : List α → Option (α × List α)
  | [] => none
  | a :: items => some (a, items)

theorem eq_cons_of_uncons (h : uncons items = some (a, rest)) : items = a :: rest := by
  cases items with
  | nil => cases h
  | cons => cases h; rfl

/-- The heap that is a list in order. -/
def ofList (cmp : α → α → Ordering) (capacity : Nat) : BinaryHeap cmp capacity where
  Carrier := List α
  new := []
  push items a := if items.length < capacity then items.orderedInsert (cmp · · ≠ .lt) a else items
  pop := uncons
  peek := head?
  iter items := items
  Ordered items := items.Pairwise (cmp · · ≠ .lt)
  iter_new := rfl
  ordered_new := .nil
  iter_push a h := (Perm.of_eq (if_pos h)).trans (perm_orderedInsert _ a _)
  ordered_push horder hlinear := by
    split
    · exact pairwise_orderedInsert hlinear horder
    · exact horder
  pop_eq_none {heap} := by cases heap <;> simp [uncons]
  iter_pop h := .of_eq (eq_cons_of_uncons h)
  pop_max horder hlinear h := by
    obtain rfl := eq_cons_of_uncons h
    exact forall_mem_cons.mpr ⟨hlinear.refl mem_cons_self, (pairwise_cons.mp horder).1⟩
  ordered_pop horder _ h := by
    obtain rfl := eq_cons_of_uncons h
    exact horder.of_cons
  peek_eq {heap} := by cases heap <;> rfl

end BinaryHeap

section

variable {σ : Type}

def sweep (f : σ → α → Option σ) : σ → List α → σ × List α
  | s, [] => (s, [])
  | s, a :: items =>
    match f s a with
    | some s => sweep f s items
    | none => ((sweep f s items).1, a :: (sweep f s items).2)

theorem sweep_sublist (s : σ) (items : List α) : (sweep f s items).2.Sublist items := by
  induction items generalizing s with
  | nil => exact .slnil
  | cons a items ih =>
    rw [sweep]
    split
    · exact (ih _).cons a
    · exact (ih s).cons_cons a

theorem sweep_invariant {I : σ → List α → Prop}
    (hperm : ∀ s items items', items.Perm items' → I s items → I s items')
    (htake : ∀ s s' a items, f s a = some s' → I s (a :: items) → I s' items)
    (h : I s items) : I (sweep f s items).1 (sweep f s items).2 := by
  suffices ∀ others, I s (items ++ others) → I (sweep f s items).1 ((sweep f s items).2 ++ others) by
    have hall := this [] ((append_nil items).symm ▸ h)
    rwa [append_nil] at hall
  clear h
  induction items generalizing s with
  | nil => exact fun _ h => h
  | cons a items ih =>
    intro others h
    rw [sweep]
    split
    · rename_i s' htaken
      exact ih others (htake s s' a _ htaken h)
    · have hall := ih (a :: others) (hperm s _ _ perm_middle.symm h)
      exact hperm _ _ _ perm_middle hall

theorem sweep_filter {p : α → Bool} (hf : ∀ s a, (f s a).isSome = p a) (s : σ) (items : List α) :
    (sweep f s items).2 = items.filter (!p ·) := by
  induction items generalizing s with
  | nil => rfl
  | cons a items ih =>
    have ha := hf s a
    rw [sweep]
    split
    · rename_i htaken
      rw [htaken, Option.isSome_some] at ha
      rw [ih, filter_cons_of_neg (by simp [← ha])]
    · rename_i hkept
      rw [hkept, Option.isSome_none] at ha
      rw [ih, filter_cons_of_pos (by simp [← ha])]

theorem sweep_first (taken : σ → Bool) {g : σ → α → σ}
    (hf : ∀ s a, f s a = if !taken s && p a then some (g s a) else none)
    (hg : ∀ s a, taken (g s a) = true) (hs : taken s = false) (items : List α) :
    sweep f s items = ((items.find? p).elim s (g s), items.eraseP p) := by
  have hdone : ∀ (items : List α) s, taken s = true → sweep f s items = (s, items) := by
    intro items s hs
    induction items with
    | nil => rfl
    | cons a items ih => simp [sweep, hf, hs, ih]
  induction items with
  | nil => rfl
  | cons a items ih =>
    cases ha : p a with
    | true => simp [sweep, hf, hs, ha, hdone items _ (hg s a)]
    | false => simp [sweep, hf, hs, ha, ih]

end

end

end Lichen.Lib
