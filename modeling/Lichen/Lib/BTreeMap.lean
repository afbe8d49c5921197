import Lichen.Lib.HashMap

namespace Lichen.Lib

open List

/-- A map with numbers as keys, as the list of its entries in the order of the keys. -/
structure BTreeMap (β : Type) where
  entries : List (Nat × β)
  sorted : entries.Pairwise fun a b => a.1 < b.1

namespace BTreeMap

variable {β : Type} {m : BTreeMap β} {k k' : Nat} {v : β}

def insertEntry (k : Nat) (v : β) : List (Nat × β) → List (Nat × β)
  | [] => [(k, v)]
  | e :: rest =>
    if k < e.1 then (k, v) :: e :: rest
    else if k = e.1 then (k, v) :: rest
    else e :: insertEntry k v rest

theorem mem_insertEntry (h : e ∈ insertEntry k v l) : e = (k, v) ∨ e ∈ l := by
  induction l with
  | nil => exact Or.inl (mem_singleton.mp h)
  | cons x rest ih =>
    rw [insertEntry] at h
    split at h
    · exact mem_cons.mp h
    split at h
    · exact (mem_cons.mp h).imp_right (mem_cons_of_mem x)
    · rcases mem_cons.mp h with rfl | h
      · exact Or.inr mem_cons_self
      · exact (ih h).imp_right (mem_cons_of_mem x)

theorem sorted_insertEntry (k : Nat) (v : β) (h : l.Pairwise fun a b => a.1 < b.1) :
    (insertEntry k v l).Pairwise fun a b => a.1 < b.1 := by
  induction l with
  | nil => exact pairwise_singleton _ _
  | cons x rest ih =>
    obtain ⟨hx, hrest⟩ := pairwise_cons.mp h
    rw [insertEntry]
    split
    · refine pairwise_cons.mpr ⟨?_, h⟩
      rintro e (_ | ⟨_, he⟩)
      · assumption
      · exact lt_trans ‹_› (hx e he)
    split
    · refine pairwise_cons.mpr ⟨?_, hrest⟩
      intro e he
      exact lt_of_eq_of_lt ‹k = x.1› (hx e he)
    · refine pairwise_cons.mpr ⟨?_, ih hrest⟩
      intro e he
      rcases mem_insertEntry he with rfl | he
      · show x.1 < k
        omega
      · exact hx e he

def new : BTreeMap β := ⟨[], .nil⟩

section

variable (m : BTreeMap β)

def get (k : Nat) : Option β := (m.entries.find? fun e => e.1 = k).map Prod.snd

def containsKey (k : Nat) : Bool := (m.get k).isSome

def len : Nat := m.entries.length

def insert (k : Nat) (v : β) : BTreeMap β :=
  ⟨insertEntry k v m.entries, sorted_insertEntry k v m.sorted⟩

def filter (p : Nat → β → Bool) : BTreeMap β :=
  ⟨m.entries.filter fun e => p e.1 e.2, m.sorted.filter _⟩

def remove (k : Nat) : BTreeMap β := m.filter fun k' _ => k' ≠ k

end

def collect (l : List (Nat × β)) : BTreeMap β := l.foldl (fun m e => m.insert e.1 e.2) new

theorem nodup_keys (m : BTreeMap β) : (m.entries.map Prod.fst).Nodup :=
  pairwise_map.mpr (m.sorted.imp ne_of_lt)

theorem mem_entries : (k, v) ∈ m.entries ↔ m.get k = some v := by
  rw [get, Option.map_eq_some_iff]
  constructor
  · intro hmem
    cases hfind : m.entries.find? fun e => e.1 = k with
    | none => exact absurd (List.find?_eq_none.mp hfind _ hmem) (by simp)
    | some e =>
      have hkey : e.1 = k := by simpa using List.find?_some hfind
      have heq : e = (k, v) :=
        inj_on_of_nodup_map m.nodup_keys (mem_of_find?_eq_some hfind) hmem hkey
      exact ⟨e, rfl, by rw [heq]⟩
  · rintro ⟨e, hfind, rfl⟩
    have hkey : e.1 = k := by simpa using List.find?_some hfind
    rw [← hkey]
    exact mem_of_find?_eq_some hfind

@[simp] theorem get_new : (new : BTreeMap β).get k = none := rfl

section

variable (m : BTreeMap β)

theorem get_insert (k k' : Nat) (v : β) :
    (m.insert k v).get k' = if k' = k then some v else m.get k' := by
  obtain ⟨l, hl⟩ := m
  show ((insertEntry k v l).find? fun e => e.1 = k').map Prod.snd =
    if k' = k then some v else (l.find? fun e => e.1 = k').map Prod.snd
  clear hl
  induction l with
  | nil => simp only [insertEntry, List.find?]; grind
  | cons x rest ih =>
    rw [insertEntry]
    split
    · grind
    split
    · grind
    · grind

theorem get_filter (p : Nat → β → Bool) (k : Nat) :
    (m.filter p).get k = (m.get k).filter (p k) := by
  apply Option.ext
  intro v
  rw [← mem_entries, Option.filter_eq_some_iff, ← mem_entries]
  exact mem_filter

theorem len_filter_le (p : Nat → β → Bool) : (m.filter p).len ≤ m.len :=
  length_filter_le _ _

theorem len_insert_le (k : Nat) (v : β) : (m.insert k v).len ≤ m.len + 1 := by
  obtain ⟨l, hl⟩ := m
  show (insertEntry k v l).length ≤ l.length + 1
  clear hl
  induction l with
  | nil => exact le_refl 1
  | cons x rest ih =>
    rw [insertEntry]
    split
    · exact le_refl _
    split
    · exact Nat.le_succ _
    · exact Nat.succ_le_succ ih

end

theorem length_le_len {ks : List Nat} (hnodup : ks.Nodup)
    (h : ∀ k ∈ ks, m.containsKey k = true) : ks.length ≤ m.len := by
  have hsubset : ks ⊆ m.entries.map Prod.fst := by
    intro k hk
    obtain ⟨v, hv⟩ := Option.isSome_iff_exists.mp (h k hk)
    exact mem_map.mpr ⟨(k, v), mem_entries.mpr hv, rfl⟩
  have hlength := (subperm_of_subset hnodup hsubset).length_le
  rwa [length_map] at hlength

theorem get_collect (h : (l.map Prod.fst).Nodup) : (collect l).get k = some v ↔ (k, v) ∈ l := by
  simp [collect, get_foldl_insert get_insert h]

end BTreeMap

end Lichen.Lib
