import Mathlib.Logic.Basic

namespace Lichen.Lib

variable {ε α β : Type} [Decidable c]

theorem guard_eq_ok {x : Except ε α} :
    (if c then throw e >>= k else x) = .ok a ↔ ¬c ∧ x = .ok a := by
  split
  · next hc => exact ⟨nofun, fun h => absurd hc h.1⟩
  · next hc => exact ⟨fun h => ⟨hc, h⟩, fun h => h.2⟩

theorem ite_error_eq_ok {x : Except ε α} :
    (if c then .error e else x) = .ok a ↔ ¬c ∧ x = .ok a := by
  split
  · next hc => exact ⟨nofun, fun h => absurd hc h.1⟩
  · next hc => exact ⟨fun h => ⟨hc, h⟩, fun h => h.2⟩

section

variable {k : β → Except ε α}

theorem bind_eq_ok : (x >>= k) = .ok a ↔ ∃ b, x = .ok b ∧ k b = .ok a := by
  cases x with
  | error => exact ⟨nofun, nofun⟩
  | ok b =>
    constructor
    · exact fun h => ⟨b, rfl, h⟩
    · rintro ⟨_, ⟨⟩, h⟩
      exact h

theorem bind_ne_error (hx : x ≠ .error e) (hk : ∀ b, k b ≠ .error e) : (x >>= k) ≠ .error e := by
  cases x with
  | error => exact fun heq => hx (congrArg _ (Except.error.inj heq))
  | ok b => exact hk b

@[simp] theorem mapError_error : (Except.error e : Except ε' α).mapError f = .error (f e) := rfl

@[simp] theorem mapError_ok : (Except.ok a : Except ε' α).mapError f = .ok a := rfl

theorem mapError_eq_ok {x : Except ε' α} : x.mapError f = .ok a ↔ x = .ok a := by
  cases x with
  | error => exact ⟨nofun, nofun⟩
  | ok => rw [mapError_ok, Except.ok.injEq, Except.ok.injEq]

theorem toOption_eq_some {x : Except ε α} : x.toOption = some a ↔ x = .ok a := by
  cases x with
  | error => exact ⟨nofun, nofun⟩
  | ok => simp [Except.toOption]

theorem map_eq_ok {x : Except ε α} : x.map f = .ok b ↔ ∃ a, x = .ok a ∧ f a = b := by
  cases x with
  | error => exact ⟨nofun, nofun⟩
  | ok => simp [Except.map]

theorem pure_eq_ok : (pure b : Except ε α) = .ok a ↔ b = a := Except.ok.injEq b a ▸ Iff.rfl

theorem throw_bind : (throw e >>= k) = throw e := rfl

theorem except_map_ite {x y : Except ε α} :
    (if c then x else y).map f = if c then x.map f else y.map f := by
  split <;> rfl

theorem except_map_throw : (throw e : Except ε α).map f = throw e := rfl

theorem except_map_pure : (pure a : Except ε α).map f = pure (f a) := rfl

theorem except_map_bind : (x >>= k).map f = x >>= fun b => (k b).map f := by
  cases x <;> rfl

end

theorem cases_of_except_map_eq {x : Except ε α} {y : Except ε β} (h : x.map f = y.map g) :
    (∃ e, x = .error e ∧ y = .error e) ∨ ∃ a b, x = .ok a ∧ y = .ok b ∧ f a = g b := by
  cases x with
  | error e =>
    cases y with
    | error => exact .inl ⟨e, rfl, congrArg _ (Except.error.inj h).symm⟩
    | ok => cases h
  | ok a =>
    cases y with
    | error => cases h
    | ok b => exact .inr ⟨a, b, rfl, rfl, Except.ok.inj h⟩

end Lichen.Lib
