import Mathlib.Data.List.Perm.Subperm
import Mathlib.Logic.Relation
import Mathlib.Order.RelClasses

namespace Lichen.Lib

/-- A depth-first search for a cycle: the nodes met so far and those still being searched. -/
structure CycleSearch (α : Type) where
  visited : List α
  stack : List α

namespace CycleSearch

variable {α : Type}

def any (search : α → CycleSearch α → Bool × CycleSearch α) :
    List α → CycleSearch α → Bool × CycleSearch α
  | [], s => (false, s)
  | node :: nodes, s =>
    match search node s with
    | (true, s) => (true, s)
    | (false, s) => any search nodes s

def fromNode [DecidableEq α] (next : α → List α) :
    Nat → α → CycleSearch α → Bool × CycleSearch α
  | 0, _, s => (true, s)
  | fuel + 1, node, s =>
    if node ∈ s.stack then (true, s)
    else if node ∈ s.visited then (false, s)
    else
      match any (fromNode next fuel) (next node) ⟨node :: s.visited, node :: s.stack⟩ with
      | (true, s) => (true, s)
      | (false, s) => (false, { s with stack := s.stack.erase node })

def Sound (next : α → List α) (s : CycleSearch α) : Prop :=
  ∀ x ∈ s.visited, x ∉ s.stack → Acc (fun b a => b ∈ next a) x

structure Extends (next : α → List α) (nodes : List α) (s s' : CycleSearch α) : Prop where
  stack : s'.stack = s.stack
  visited : s.visited ⊆ s'.visited
  sound : Sound next s → Sound next s'
  done : ∀ node ∈ nodes, node ∈ s'.visited ∧ node ∉ s'.stack

variable {next : α → List α} {s : CycleSearch α}

theorem Extends.refl (next : α → List α) (s : CycleSearch α) : Extends next [] s s :=
  ⟨rfl, fun _ h => h, id, by simp⟩

theorem Extends.cons (h : Extends next [node] s t) (h' : Extends next nodes t s') :
    Extends next (node :: nodes) s s' where
  stack := h'.stack.trans h.stack
  visited := fun _ hx => h'.visited (h.visited hx)
  sound := fun hs => h'.sound (h.sound hs)
  done := by
    rintro x (_ | ⟨_, hx⟩)
    · obtain ⟨hvisited, hstack⟩ := h.done node (List.mem_singleton_self _)
      exact ⟨h'.visited hvisited, h'.stack ▸ hstack⟩
    · exact h'.done x hx

theorem extends_of_any
    (hsearch : ∀ node s s', search node s = (false, s') → Extends next [node] s s')
    (nodes : List α) (h : any search nodes s = (false, s')) : Extends next nodes s s' := by
  induction nodes generalizing s with
  | nil =>
    cases h
    exact Extends.refl next _
  | cons node nodes ih =>
    simp only [any] at h
    split at h
    · cases h
    · rename_i t hnode
      exact (hsearch node s t hnode).cons (ih h)

theorem cycle_of_any (hfalse : ∀ node s s', search node s = (false, s') → s'.stack = s.stack)
    (nodes : List α) (h : any search nodes s = (true, s')) :
    ∃ node ∈ nodes, ∃ t t', t.stack = s.stack ∧ search node t = (true, t') := by
  induction nodes generalizing s with
  | nil => cases h
  | cons node nodes ih =>
    simp only [any] at h
    split at h
    · exact ⟨node, List.mem_cons_self, s, _, rfl, ‹_›⟩
    · rename_i t hnode
      obtain ⟨other, hother, u, u', hstack, hsearch⟩ := ih h
      exact ⟨other, List.mem_cons_of_mem _ hother, u, u',
        hstack.trans (hfalse node s t hnode), hsearch⟩

variable [DecidableEq α]

theorem extends_of_fromNode (h : fromNode next fuel node s = (false, s')) :
    Extends next [node] s s' := by
  induction fuel generalizing node s s' with
  | zero => cases h
  | succ fuel ih =>
    simp only [fromNode] at h
    split at h
    · cases h
    rename_i hstack
    split at h
    · rename_i hvisited
      cases h
      exact ⟨rfl, fun _ h => h, id, by simpa using ⟨hvisited, hstack⟩⟩
    split at h
    · cases h
    · rename_i t hany
      cases h
      have hext := extends_of_any (fun node s s' h => ih h) _ hany
      have herase : t.stack.erase node = s.stack := by
        rw [hext.stack, List.erase_cons_head]
      refine ⟨herase, fun x hx => hext.visited (List.mem_cons_of_mem _ hx), fun hs => ?_, ?_⟩
      · have ht : Sound next t := hext.sound fun x hx hxs => by
          have hne : x ≠ node := fun heq => hxs (heq ▸ List.mem_cons_self)
          exact hs x (List.mem_of_ne_of_mem hne hx) (List.not_mem_of_not_mem_cons hxs)
        intro x hx hxs
        by_cases hxn : x = node
        · subst hxn
          refine Acc.intro _ fun child hchild => ?_
          obtain ⟨hvisited, hdone⟩ := hext.done child hchild
          exact ht child hvisited hdone
        · refine ht x hx ?_
          rw [herase] at hxs
          rw [hext.stack]
          exact List.not_mem_cons_of_ne_of_not_mem hxn hxs
      · intro x hx
        obtain rfl := List.mem_singleton.mp hx
        exact ⟨hext.visited List.mem_cons_self, herase ▸ hstack⟩

/-- The stack is a path to `node`, and the fuel lasts for the nodes that are not on it. -/
structure Descends (next : α → List α) (keys : List α) (fuel : Nat) (node : α)
    (s : CycleSearch α) : Prop where
  nodup : s.stack.Nodup
  subset : s.stack ⊆ keys
  path : ∀ x ∈ s.stack, Relation.TransGen (fun a b => b ∈ next a) x node
  fuel_lt : keys.length < fuel + s.stack.length

theorem cycle_of_fromNode (hkeys : ∀ a, next a ≠ [] → a ∈ keys)
    (hs : Descends next keys fuel node s) (h : fromNode next fuel node s = (true, s')) :
    ∃ a, Relation.TransGen (fun a b => b ∈ next a) a a := by
  induction fuel generalizing node s s' with
  | zero =>
    have hle := (List.subperm_of_subset hs.nodup hs.subset).length_le
    have hlt := hs.fuel_lt
    omega
  | succ fuel ih =>
    simp only [fromNode] at h
    split at h
    · exact ⟨node, hs.path node ‹_›⟩
    rename_i hstack
    split at h
    · cases h
    split at h
    · rename_i hany
      obtain ⟨_, hchild, _, _, hu, hsearch⟩ :=
        cycle_of_any (fun node s s' h => (extends_of_fromNode h).stack) _ hany
      have hnode : node ∈ keys := hkeys node fun hnil => by simp [hnil] at hchild
      refine ih ⟨?_, ?_, ?_, ?_⟩ hsearch
      · rw [hu]
        exact List.nodup_cons.mpr ⟨hstack, hs.nodup⟩
      · rw [hu]
        exact List.cons_subset.mpr ⟨hnode, hs.subset⟩
      · rw [hu]
        rintro x (_ | ⟨_, hx⟩)
        · exact .single hchild
        · exact (hs.path x hx).tail hchild
      · have := hs.fuel_lt
        rw [hu, List.length_cons]
        omega
    · cases h

theorem any_fromNode_iff (hkeys : ∀ a, next a ≠ [] → a ∈ keys) (hfuel : keys.length < fuel) :
    (any (fromNode next fuel) keys ⟨[], []⟩).1 = true ↔
      ∃ a, Relation.TransGen (fun a b => b ∈ next a) a a := by
  cases hany : any (fromNode next fuel) keys ⟨[], []⟩ with
  | mk found s =>
    cases found with
    | true =>
      obtain ⟨node, -, t, _, ht, hsearch⟩ :=
        cycle_of_any (fun node s s' h => (extends_of_fromNode h).stack) _ hany
      have hdescends : Descends next keys fuel node t := by
        constructor <;> simp [ht, hfuel]
      exact iff_of_true rfl (cycle_of_fromNode hkeys hdescends hsearch)
    | false =>
      refine iff_of_false (by simp) ?_
      have hext := extends_of_any (fun node s s' h => extends_of_fromNode h) _ hany
      have hsound : Sound next s := hext.sound (by simp [Sound])
      have hacc : ∀ a, Acc (fun b a => b ∈ next a) a := by
        intro a
        by_cases ha : next a = []
        · exact Acc.intro _ fun b hb => by simp [ha] at hb
        · obtain ⟨hvisited, hstack⟩ := hext.done a (hkeys a ha)
          exact hsound a hvisited hstack
      rintro ⟨a, hcycle⟩
      have hback : Relation.TransGen (fun b a => b ∈ next a) a a :=
        Relation.transGen_swap.mp hcycle
      exact (WellFounded.intro hacc).transGen.asymmetric a a hback hback

end CycleSearch

end Lichen.Lib
