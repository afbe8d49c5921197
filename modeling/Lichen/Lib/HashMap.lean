import Mathlib.Data.List.AList
import Mathlib.Data.List.MinMax
import Mathlib.Data.Finset.Card

namespace Lichen.Lib

open List AList

/-- The pairs are inserted in turn into a map of any kind. -/
theorem get_foldl_insert [DecidableEq α] {get : M → α → Option β} {insert : M → α → β → M}
    {l : List (α × β)}
    (hinsert : ∀ m a b v, get (insert m a v) b = if b = a then some v else get m b)
    (h : (l.map Prod.fst).Nodup) :
    get (l.foldl (fun m e => insert m e.1 e.2) m) a = some v ↔
      (a, v) ∈ l ∨ a ∉ l.map Prod.fst ∧ get m a = some v := by
  induction l generalizing m with
  | nil => simp
  | cons x rest ih =>
    obtain ⟨hx, hrest⟩ := nodup_cons.mp (map_cons ▸ h)
    have hkey : ∀ w, (x.1, w) ∉ rest := fun w hmem => hx (mem_map.mpr ⟨_, hmem, rfl⟩)
    rw [foldl_cons, ih hrest, hinsert]
    obtain ⟨x, _⟩ := x
    by_cases ha : a = x
    · subst ha
      simp [hkey v, hx, eq_comm]
    · simp [ha]

/-- An order in which a hash table may list its entries: any permutation. -/
structure HashOrder where
  order : {α : Type} → List α → List α
  perm : ∀ {α : Type} (l : List α), (order l).Perm l

def HashOrder.inserted : HashOrder := ⟨fun l => l, fun l => .refl l⟩

structure HashMap (α β : Type) where
  table : AList fun _ : α => β

namespace HashMap

variable {α β : Type} {m : HashMap α β} {a b : α} {v : β}

def new : HashMap α β := ⟨∅⟩

section

variable (m : HashMap α β)

def toPairs : List (α × β) := m.table.entries.map fun e => (e.1, e.2)

def len : Nat := m.table.keys.length

def iter (o : HashOrder) : List (α × β) := o.order m.toPairs

def minByKey (o : HashOrder) (f : β → Nat) : Option α :=
  ((m.iter o).argmin fun e => f e.2).map Prod.fst

def retain (p : α → β → Bool) : HashMap α β :=
  ⟨⟨m.table.entries.filter fun e => p e.1 e.2,
    m.table.nodupKeys.sublist filter_sublist⟩⟩

def mapValues (f : α → β → γ) : HashMap α γ :=
  ⟨⟨m.table.entries.map fun e => ⟨e.1, f e.1 e.2⟩, by
    have hkeys : (m.table.entries.map fun e => (⟨e.1, f e.1 e.2⟩ : Sigma fun _ : α => γ)).keys =
        m.table.entries.keys := by
      simp [List.keys, Function.comp_def]
    rw [List.NodupKeys, hkeys]
    exact m.table.nodupKeys⟩⟩

def retainMut (f : α → β → Option β) : HashMap α β :=
  (m.retain fun a v => (f a v).isSome).mapValues fun a v => (f a v).getD v

def keys (o : HashOrder) : List α := (m.iter o).map Prod.fst

def values (o : HashOrder) : List β := (m.iter o).map Prod.snd

end

@[simp] theorem len_new : (new : HashMap α β).len = 0 := rfl

section

variable (m : HashMap α β)

theorem len_eq_toPairs : m.len = m.toPairs.length := by
  simp [len, toPairs, AList.keys, List.keys]

theorem len_retain_le (p : α → β → Bool) : (m.retain p).len ≤ m.len := by
  simp only [len_eq_toPairs, toPairs, retain, length_map]
  exact length_filter_le _ _

theorem length_keys (o : HashOrder) : (m.keys o).length = m.len := by
  rw [keys, length_map, iter, (o.perm _).length_eq, ← len_eq_toPairs]

theorem nodup_keys (o : HashOrder) : (m.keys o).Nodup := by
  have hkeys : m.toPairs.map Prod.fst = m.table.keys := by
    simp [toPairs, AList.keys, List.keys, Function.comp_def]
  rw [keys, iter, ((o.perm _).map _).nodup_iff, hkeys]
  exact m.table.keys_nodup

def countKeys (m : HashMap α β) (p : α → Bool) : Nat := m.table.keys.countP p

theorem countKeys_eq_toPairs (p : α → Bool) :
    m.countKeys p = (m.toPairs.filter fun e => p e.1).length := by
  rw [countKeys, AList.keys, List.keys, countP_map, toPairs, ← countP_eq_length_filter,
    countP_map]
  rfl

end

theorem len_of_minByKey_none (h : m.minByKey o f = none) : m.len = 0 := by
  rw [minByKey, Option.map_eq_none_iff, argmin_eq_none, iter] at h
  rw [len_eq_toPairs, ← (o.perm m.toPairs).length_eq, h, length_nil]

section

variable [DecidableEq α]

section

variable (m : HashMap α β)

def get (a : α) : Option β := m.table.lookup a

def containsKey (a : α) : Bool := (m.get a).isSome

def insert (a : α) (v : β) : HashMap α β := ⟨m.table.insert a v⟩

def remove (a : α) : HashMap α β := ⟨m.table.erase a⟩

end

def collect (l : List (α × β)) : HashMap α β := l.foldl (fun m e => m.insert e.1 e.2) new

def same [DecidableEq β] (m m' : HashMap α β) : Bool :=
  m.len = m'.len && m.toPairs.all fun e => m'.get e.1 = some e.2

@[simp] theorem get_new : (new : HashMap α β).get a = none := rfl

theorem mem_toPairs : (a, v) ∈ m.toPairs ↔ m.get a = some v := by
  rw [get, ← Option.mem_def, mem_lookup_iff, toPairs, mem_map]
  constructor
  · rintro ⟨⟨_, _⟩, he, heq⟩
    cases heq
    exact he
  · exact fun he => ⟨⟨a, v⟩, he, rfl⟩

theorem mem_iter (o : HashOrder) : (a, v) ∈ m.iter o ↔ m.get a = some v := by
  rw [iter, (o.perm _).mem_iff, mem_toPairs]

theorem get_of_minByKey (h : m.minByKey o f = some a) : ∃ v, m.get a = some v := by
  simp only [minByKey, Option.map_eq_some_iff] at h
  obtain ⟨⟨_, v⟩, hmin, rfl⟩ := h
  exact ⟨v, (mem_iter o).mp (argmin_mem hmin)⟩

section

variable (m : HashMap α β)

theorem get_insert (a b : α) (v : β) :
    (m.insert a v).get b = if b = a then some v else m.get b := by
  split
  · subst b
    exact lookup_insert m.table
  · exact lookup_insert_ne ‹_›

@[simp] theorem get_insert_self (a : α) (v : β) : (m.insert a v).get a = some v := by
  rw [get_insert, if_pos rfl]

theorem get_insert_ne (v : β) (h : b ≠ a) : (m.insert a v).get b = m.get b := by
  rw [get_insert, if_neg h]

end

theorem get_of_get_insert (h : (m.insert a w).get b = some v) :
    b = a ∧ v = w ∨ b ≠ a ∧ m.get b = some v := by
  rw [get_insert] at h
  split at h
  · exact .inl ⟨‹_›, (Option.some.inj h).symm⟩
  · exact .inr ⟨‹_›, h⟩

theorem get_collect (h : (l.map Prod.fst).Nodup) : (collect l).get a = some v ↔ (a, v) ∈ l := by
  simp [collect, get_foldl_insert get_insert h]

section

variable (m : HashMap α β)

theorem get_remove (a b : α) : (m.remove a).get b = if b = a then none else m.get b := by
  split
  · subst b
    exact lookup_erase a m.table
  · exact lookup_erase_ne ‹_›

@[simp] theorem get_remove_self (a : α) : (m.remove a).get a = none := by
  rw [get_remove, if_pos rfl]

theorem get_remove_ne (h : b ≠ a) : (m.remove a).get b = m.get b := by
  rw [get_remove, if_neg h]

end

theorem get_of_get_remove (h : (m.remove a).get b = some v) : b ≠ a ∧ m.get b = some v := by
  rw [get_remove] at h
  split at h
  · cases h
  · exact ⟨‹_›, h⟩

section

variable (m : HashMap α β)

theorem get_retain (p : α → β → Bool) (a : α) : (m.retain p).get a = (m.get a).filter (p a) := by
  apply Option.ext
  intro v
  rw [← mem_toPairs, Option.filter_eq_some_iff, ← mem_toPairs]
  simp only [toPairs, retain, mem_map, mem_filter]
  constructor
  · rintro ⟨⟨k, w⟩, ⟨he, hp⟩, heq⟩
    cases heq
    exact ⟨⟨_, he, rfl⟩, hp⟩
  · rintro ⟨⟨⟨k, w⟩, he, heq⟩, hp⟩
    cases heq
    exact ⟨_, ⟨he, hp⟩, rfl⟩

theorem get_mapValues (f : α → β → γ) (a : α) : (m.mapValues f).get a = (m.get a).map (f a) := by
  apply Option.ext
  intro w
  rw [← mem_toPairs, Option.map_eq_some_iff]
  simp only [toPairs, mapValues, map_map, mem_map, Function.comp_apply]
  constructor
  · rintro ⟨⟨_, v⟩, he, heq⟩
    cases heq
    exact ⟨v, mem_toPairs.mp (mem_map.mpr ⟨_, he, rfl⟩), rfl⟩
  · rintro ⟨v, hv, rfl⟩
    obtain ⟨e, he, heq⟩ := mem_map.mp (mem_toPairs.mpr hv)
    cases heq
    exact ⟨e, he, rfl⟩

theorem get_retainMut (f : α → β → Option β) (a : α) :
    (m.retainMut f).get a = (m.get a).bind (f a) := by
  rw [retainMut, get_mapValues, get_retain]
  cases m.get a with
  | none => rfl
  | some v =>
    cases hf : f a v with
    | none | some => simp [Option.filter, hf]

end

theorem mem_keys (o : HashOrder) : a ∈ m.keys o ↔ ∃ v, m.get a = some v := by
  simp only [keys, mem_map, Prod.exists, exists_and_right, exists_eq_right, mem_iter]

theorem mem_values (o : HashOrder) : v ∈ m.values o ↔ ∃ a, m.get a = some v := by
  simp only [values, mem_map, Prod.exists, exists_eq_right, mem_iter]

theorem mem_keys_of_get (h : m.get a = some v) : a ∈ m.table.keys :=
  AList.mem_keys.mp (AList.lookup_isSome.mp (by rw [← get, h]; rfl))

theorem get_of_mem_keys (h : a ∈ m.table.keys) : ∃ v, m.get a = some v :=
  Option.isSome_iff_exists.mp (AList.lookup_isSome.mpr (AList.mem_keys.mpr h))

theorem len_eq_zero (h : ∀ a, m.get a = none) : m.len = 0 := by
  rw [len, length_eq_zero_iff, eq_nil_iff_forall_not_mem]
  intro a ha
  obtain ⟨_, hv⟩ := get_of_mem_keys ha
  rw [h a] at hv
  cases hv

theorem len_insert_le (m : HashMap α β) (a : α) (v : β) : (m.insert a v).len ≤ m.len + 1 := by
  rw [len, insert, keys_insert, length_cons]
  exact Nat.succ_le_succ length_erase_le

theorem len_insert_of_get (h : m.get a = some w) : (m.insert a v).len = m.len := by
  have hmem := mem_keys_of_get h
  have hpos := length_pos_of_mem hmem
  rw [len, len, insert, keys_insert, length_cons, length_erase_of_mem hmem]
  omega

theorem notMem_keys_of_get (h : m.get a = none) : a ∉ m.table.keys := by
  intro hmem
  obtain ⟨_, hv⟩ := get_of_mem_keys hmem
  rw [h] at hv
  cases hv

theorem len_insert_of_get_none (h : m.get a = none) : (m.insert a v).len = m.len + 1 := by
  rw [len, len, insert, keys_insert, length_cons, erase_of_not_mem (notMem_keys_of_get h)]

theorem len_le_card {s : Finset α} (h : ∀ a v, m.get a = some v → a ∈ s) : m.len ≤ s.card := by
  have hsub : m.table.keys.toFinset ⊆ s := by
    intro a ha
    obtain ⟨v, hv⟩ := get_of_mem_keys (mem_toFinset.mp ha)
    exact h a v hv
  rw [len, ← toFinset_card_of_nodup m.table.keys_nodup]
  exact Finset.card_le_card hsub

theorem length_le_len {l : List α} (hnodup : l.Nodup) (h : ∀ a ∈ l, ∃ v, m.get a = some v) :
    l.length ≤ m.len := by
  refine (subperm_of_subset hnodup fun a ha => ?_).length_le
  obtain ⟨v, hv⟩ := h a ha
  exact mem_keys_of_get hv

theorem len_remove_le (m : HashMap α β) (a : α) : (m.remove a).len ≤ m.len := by
  rw [len, remove, keys_erase]
  exact length_erase_le

theorem len_remove_of_get (h : m.get a = some v) : (m.remove a).len + 1 = m.len := by
  have hmem := mem_keys_of_get h
  have hpos := length_pos_of_mem hmem
  rw [len, len, remove, keys_erase, length_erase_of_mem hmem]
  omega

section

variable (p : α → Bool)

theorem countKeys_eq_len (h : ∀ a v, m.get a = some v → p a = true) : m.countKeys p = m.len := by
  rw [countKeys, len, countP_eq_length]
  intro a ha
  obtain ⟨v, hv⟩ := get_of_mem_keys ha
  exact h a v hv

theorem countKeys_remove_of_get (h : m.get a = some v) :
    (m.remove a).countKeys p + (if p a then 1 else 0) = m.countKeys p := by
  rw [countKeys, countKeys, remove, keys_erase, ← countP_cons]
  exact (perm_cons_erase (mem_keys_of_get h)).symm.countP_eq p

theorem countKeys_remove_of_get_none (h : m.get a = none) :
    (m.remove a).countKeys p = m.countKeys p := by
  rw [countKeys, countKeys, remove, keys_erase, erase_of_not_mem (notMem_keys_of_get h)]

theorem countKeys_insert_eq (m : HashMap α β) (a : α) (v : β) :
    (m.insert a v).countKeys p = (m.remove a).countKeys p + if p a then 1 else 0 := by
  rw [countKeys, countKeys, remove, keys_erase, insert, keys_insert, countP_cons]

theorem countKeys_insert_of_get (h : m.get a = some w) :
    (m.insert a v).countKeys p = m.countKeys p := by
  rw [countKeys_insert_eq, countKeys_remove_of_get p h]

theorem countKeys_insert_of_get_none (h : m.get a = none) :
    (m.insert a v).countKeys p = m.countKeys p + if p a then 1 else 0 := by
  rw [countKeys_insert_eq, countKeys_remove_of_get_none p h]

end

theorem len_le_of_injOn [DecidableEq α'] {m' : HashMap α' β'} (f : α → α')
    (hmem : ∀ a v, m.get a = some v → ∃ w, m'.get (f a) = some w)
    (hinj : ∀ a b v w, m.get a = some v → m.get b = some w → f a = f b → a = b) :
    m.len ≤ m'.len := by
  have hnodup : (m.table.keys.map f).Nodup := by
    refine List.Nodup.map_on ?_ m.table.keys_nodup
    intro a ha b hb heq
    obtain ⟨v, hv⟩ := get_of_mem_keys ha
    obtain ⟨w, hw⟩ := get_of_mem_keys hb
    exact hinj a b v w hv hw heq
  have hsubset : m.table.keys.map f ⊆ m'.table.keys := by
    intro k hk
    obtain ⟨a, ha, rfl⟩ := mem_map.mp hk
    obtain ⟨v, hv⟩ := get_of_mem_keys ha
    obtain ⟨w, hw⟩ := hmem a v hv
    exact mem_keys_of_get hw
  have hlength := (subperm_of_subset hnodup hsubset).length_le
  rwa [length_map] at hlength

end

end HashMap

abbrev HashSet (α : Type) := HashMap α Unit

namespace HashSet

variable {α : Type} [DecidableEq α] {s : HashSet α} {a b : α}

def contains (s : HashSet α) (a : α) : Bool := s.containsKey a

def add (s : HashSet α) (a : α) : HashSet α := s.insert a ()

theorem contains_eq_true : HashSet.contains s a = true ↔ ∃ u, s.get a = some u :=
  Option.isSome_iff_exists

theorem contains_add : HashSet.contains (HashSet.add s b) a = true ↔
    a = b ∨ HashSet.contains s a = true := by
  rw [contains_eq_true, contains_eq_true, add, HashMap.get_insert]
  split
  · simp [‹a = b›]
  · simp [‹¬ a = b›]

end HashSet

end Lichen.Lib
