import Mathlib.Data.List.Basic
import Mathlib.Order.Defs.PartialOrder

namespace Lichen.Lib

structure BoundedVec (α : Type u) (capacity : Nat) where
  items : List α
  bounded : items.length ≤ capacity

namespace BoundedVec

variable {α : Type u} {capacity : Nat}

def new : BoundedVec α capacity := ⟨[], Nat.zero_le _⟩

section

variable (v : BoundedVec α capacity)

def retain (p : α → Bool) : BoundedVec α capacity :=
  ⟨v.items.filter p, Nat.le_trans (List.length_filter_le p v.items) v.bounded⟩

def push (a : α) : Option (BoundedVec α capacity) :=
  if h : v.items.length < capacity then
    some ⟨v.items ++ [a], by simpa using Nat.succ_le_of_lt h⟩
  else none

def remove (index : Nat) : BoundedVec α capacity :=
  ⟨v.items.eraseIdx index, Nat.le_trans (List.length_eraseIdx_le v.items index) v.bounded⟩

@[simp] theorem items_retain (p : α → Bool) : (v.retain p).items = v.items.filter p := rfl

end

theorem push_eq_some {v v' : BoundedVec α capacity} :
    v.push a = some v' ↔ v.items.length < capacity ∧ v'.items = v.items ++ [a] := by
  rw [push]
  split
  · rename_i hlt
    rw [Option.some.injEq]
    exact ⟨fun h => ⟨hlt, h ▸ rfl⟩, fun h => by cases v'; cases h.2; rfl⟩
  · rename_i hlt
    exact ⟨nofun, fun h => absurd h.1 hlt⟩

theorem push_eq_none {v : BoundedVec α capacity} : v.push a = none ↔ v.items.length = capacity := by
  rw [push]
  split
  · exact ⟨nofun, fun h => by omega⟩
  · exact ⟨fun _ => by have := v.bounded; omega, fun _ => rfl⟩

end BoundedVec

section

variable {α : Type u}

/-- Each entry came with fewer than `n` recent entries before it; the newest is last. -/
inductive Limited (recent : α → α → Bool) (n : Nat) : List α → Prop
  | nil : Limited recent n []
  | concat : Limited recent n log → log.countP (recent a) < n → Limited recent n (log ++ [a])

variable {recent : α → α → Bool} {log : List α}

theorem Limited.countP_le (h : Limited recent n log)
    (hp : ∀ a b, p a → p b → before b a → recent a b) (hlog : log.Pairwise before) :
    log.countP p ≤ n := by
  induction h with
  | nil => exact Nat.zero_le n
  | @concat log a _ hlt ih =>
    obtain ⟨hlog, -, hlast⟩ := List.pairwise_append.mp hlog
    rw [List.countP_append, List.countP_singleton]
    split
    · rename_i ha
      have hrecent : log.countP p ≤ log.countP (recent a) :=
        List.countP_mono_left fun b hb hpb =>
          hp a b ha hpb (hlast b hb a List.mem_cons_self)
      omega
    · exact ih hlog

end

section

variable {τ : Type v} [LE τ] {α : Type u} {recent : τ → α → Bool} {now : τ} {log all : List α}

def Tracks (recent : τ → α → Bool) (now : τ) (log all : List α) : Prop :=
  ∀ t, now ≤ t → log.filter (recent t) = all.filter (recent t)

section

variable (h : Tracks recent now log all)

include h

theorem Tracks.countP_eq (hle : now ≤ later) (p : α → Bool) :
    (log.filter (recent later)).countP p = all.countP fun a => p a && recent later a := by
  rw [h later hle, List.countP_filter]

theorem Tracks.prune [Std.IsPreorder τ] (hle : now ≤ later)
    (hold : ∀ a ∈ log, ∀ t, later ≤ t → recent t a → recent later a) :
    Tracks recent later (log.filter (recent later)) all := by
  intro t ht
  rw [List.filter_filter, ← h t (Std.le_trans hle ht)]
  apply List.filter_congr
  intro a ha
  rw [Bool.eq_iff_iff, Bool.and_eq_true]
  exact ⟨And.left, fun hr => ⟨hr, hold a ha t ht hr⟩⟩

theorem Tracks.concat (a : α) : Tracks recent now (log ++ [a]) (all ++ [a]) := by
  intro t ht
  rw [List.filter_append, List.filter_append, h t ht]

end

end

end Lichen.Lib
