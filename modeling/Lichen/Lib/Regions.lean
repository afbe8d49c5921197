import Lichen.Lib.Bytes

namespace Lichen.Lib

variable {α : Type u} {regions : List (Nat × Nat)} {region : Nat × Nat} {l data : List α}
  {a b offset : Nat}

/-- The regions, each an offset and a length, stand one behind the other from `a` to `b`. -/
def Tiles : Nat → List (Nat × Nat) → Nat → Prop
  | a, [], b => a = b
  | a, region :: regions, b => region.1 = a ∧ Tiles (a + region.2) regions b

namespace Tiles

section

variable (h : Tiles a regions b)

include h

theorem le : a ≤ b := by
  induction regions generalizing a with
  | nil => exact Nat.le_of_eq h
  | cons region regions ih => exact (Nat.le_add_right _ _).trans (ih h.2)

theorem append (h' : Tiles b regions' c) : Tiles a (regions ++ regions') c := by
  induction regions generalizing a with
  | nil =>
    cases h
    exact h'
  | cons region regions ih => exact ⟨h.1, ih h.2⟩

theorem snoc (n : Nat) : Tiles a (regions ++ [(b, n)]) (b + n) :=
  h.append ⟨rfl, rfl⟩

theorem bounds (hregion : region ∈ regions) : a ≤ region.1 ∧ region.1 + region.2 ≤ b := by
  induction regions generalizing a with
  | nil => exact (List.not_mem_nil hregion).elim
  | cons first regions ih =>
    cases List.mem_cons.mp hregion with
    | inl heq =>
      subst heq
      exact ⟨h.1.ge, h.1 ▸ h.2.le⟩
    | inr hmem =>
      have hrest := ih h.2 hmem
      exact ⟨(Nat.le_add_right _ _).trans hrest.1, hrest.2⟩

theorem start : (regions.head?.map Prod.fst).getD b = a := by
  cases regions with
  | nil => exact h.symm
  | cons => exact h.1

theorem exists_pos (hlt : a < b) : ∃ region ∈ regions, 0 < region.2 := by
  induction regions generalizing a with
  | nil => exact (hlt.ne h).elim
  | cons region regions ih =>
    by_cases hregion : 0 < region.2
    · exact ⟨region, List.mem_cons_self, hregion⟩
    · have hzero : region.2 = 0 := by omega
      have hrest := h.2
      rw [hzero, Nat.add_zero] at hrest
      obtain ⟨found, hfound, hpos⟩ := ih hrest hlt
      exact ⟨found, List.mem_cons_of_mem _ hfound, hpos⟩

end

end Tiles

def contents (l : List α) (regions : List (Nat × Nat)) : List (List α) :=
  regions.map fun region => l.extract region.1 (region.1 + region.2)

section

variable (hregions : ∀ region ∈ regions, region.1 + region.2 ≤ offset ∨ offset + data.length ≤ region.1)

include hregions

theorem contents_overwrite (h : offset + data.length ≤ l.length) :
    contents (overwrite l offset data) regions = contents l regions := by
  apply List.map_congr_left
  intro region hregion
  cases hregions region hregion with
  | inl hbefore => exact extract_overwrite_left h hbefore
  | inr hbehind => exact extract_overwrite_right h hbehind

theorem contents_overwrite_snoc (h : offset + data.length ≤ l.length) :
    contents (overwrite l offset data) (regions ++ [(offset, data.length)]) =
      contents l regions ++ [data] := by
  rw [contents, List.map_append]
  refine congrArg₂ _ (contents_overwrite hregions h) ?_
  exact congrArg (fun piece => [piece]) (extract_overwrite_self h)

end

end Lichen.Lib
