import Mathlib.Order.Defs.Unbundled

namespace Lichen.Lib

variable {ε σ α : Type} {c : Prop} [Decidable c] {e : ε} {s s' : σ} {a : α} {p : EStateM ε σ α}
  {k : α → EStateM ε σ β}

def check (c : Prop) [Decidable c] (e : ε) : EStateM ε σ Unit := if c then throw e else pure ()

def Yields (p : EStateM ε σ α) (s : σ) (a : α) (s' : σ) : Prop := p s = .ok a s'

theorem yields_pure : Yields (pure a : EStateM ε σ α) s a' s' ↔ a' = a ∧ s' = s := by
  constructor
  · rintro ⟨⟩
    exact ⟨rfl, rfl⟩
  · rintro ⟨rfl, rfl⟩
    rfl

theorem not_yields_throw : ¬Yields (throw e : EStateM ε σ α) s a s' := nofun

theorem yields_bind : Yields (p >>= k) s b s' ↔ ∃ a s₁, Yields p s a s₁ ∧ Yields (k a) s₁ b s' := by
  simp only [Yields, bind, EStateM.bind]
  cases hp : p s with
  | ok a s₁ =>
    constructor
    · intro h
      exact ⟨a, s₁, rfl, h⟩
    · rintro ⟨_, _, ⟨⟩, h⟩
      exact h
  | error => simp

theorem yields_check : Yields (check c e : EStateM ε σ Unit) s u s' ↔ ¬c ∧ s' = s := by
  rw [check]
  by_cases h : c
  · rw [if_pos h]
    exact ⟨fun hy => (not_yields_throw hy).elim, fun hc => (hc.1 h).elim⟩
  · rw [if_neg h, yields_pure]
    simp [h]

theorem yields_ofExcept : Yields (ofExcept r : EStateM ε σ α) s a s' ↔ r = .ok a ∧ s' = s := by
  cases r with
  | ok =>
    rw [ofExcept, yields_pure, Except.ok.injEq]
    exact and_congr_left' eq_comm
  | error => exact ⟨fun h => (not_yields_throw h).elim, fun h => nomatch h.1⟩

theorem yields_get : Yields (get : EStateM ε σ σ) s s₁ s' ↔ s₁ = s ∧ s' = s := by
  constructor
  · rintro ⟨⟩
    exact ⟨rfl, rfl⟩
  · rintro ⟨rfl, rfl⟩
    rfl

theorem yields_set : Yields (set s₁ : EStateM ε σ PUnit) s u s' ↔ s' = s₁ := by
  constructor
  · rintro ⟨⟩
    rfl
  · rintro rfl
    rfl

theorem yields_modify : Yields (modify f : EStateM ε σ PUnit) s u s' ↔ s' = f s := by
  constructor
  · rintro ⟨⟩
    rfl
  · rintro rfl
    rfl

/-- From the state `s`, `Q` holds of whatever the computation returns or fails with and of the state
that it leaves. -/
def Ensures (p : EStateM ε σ α) (s : σ) (Q : Except ε α → σ → Prop) : Prop :=
  match p s with
  | .ok a s' => Q (.ok a) s'
  | .error e s' => Q (.error e) s'

theorem Ensures.imp (h : Ensures p s Q) (himp : ∀ r s', Q r s' → Q' r s') : Ensures p s Q' := by
  unfold Ensures at h ⊢
  split at h <;> exact himp _ _ h

theorem ensures_pure : Ensures (pure a : EStateM ε σ α) s Q ↔ Q (.ok a) s := Iff.rfl

theorem ensures_throw : Ensures (throw e : EStateM ε σ α) s Q ↔ Q (.error e) s := Iff.rfl

theorem ensures_bind : Ensures (p >>= k) s R ↔ Ensures p s fun r s' => match r with
    | .ok a => Ensures (k a) s' R
    | .error e => R (.error e) s' := by
  simp only [Ensures, bind, EStateM.bind]
  cases p s <;> rfl

theorem Ensures.bind (hp : Ensures p s Q) (herror : ∀ e s', Q (.error e) s' → R (.error e) s')
    (hok : ∀ a s', Q (.ok a) s' → Ensures (k a) s' R) : Ensures (p >>= k) s R := by
  rw [ensures_bind]
  refine hp.imp fun r s' h => ?_
  cases r with
  | error e => exact herror e s' h
  | ok a => exact hok a s' h

theorem ensures_check {Q : Except ε Unit → σ → Prop} :
    Ensures (check c e : EStateM ε σ Unit) s Q ↔ (c → Q (.error e) s) ∧ (¬c → Q (.ok ()) s) := by
  rw [check]
  split <;> simp [ensures_pure, ensures_throw, *]

theorem Ensures.check_bind {k : Unit → EStateM ε σ β} (herror : R (.error e) s)
    (hok : ¬c → Ensures (k ()) s R) : Ensures (check c e >>= k) s R := by
  rw [ensures_bind, ensures_check]
  exact ⟨fun _ => herror, hok⟩

theorem ensures_ofExcept : Ensures (ofExcept r : EStateM ε σ α) s Q ↔ Q r s := by
  cases r <;> exact Iff.rfl

theorem Ensures.ofExcept_bind (herror : ∀ e, r = .error e → R (.error e) s)
    (hok : ∀ a, r = .ok a → Ensures (k a) s R) : Ensures (ofExcept r >>= k) s R := by
  rw [ensures_bind, ensures_ofExcept]
  cases r with
  | error e => exact herror e rfl
  | ok a => exact hok a rfl

theorem ensures_tryCatch :
    Ensures (tryCatch p handler) s Q ↔ Ensures p s fun r s' => match r with
      | .ok a => Q (.ok a) s'
      | .error e => Ensures (handler e) s' Q := by
  simp only [Ensures, tryCatch, tryCatchThe, MonadExceptOf.tryCatch]
  delta EStateM.tryCatch
  cases p s <;> rfl

theorem ensures_get {Q : Except ε σ → σ → Prop} :
    Ensures (get : EStateM ε σ σ) s Q ↔ Q (.ok s) s := Iff.rfl

theorem ensures_set {Q : Except ε PUnit → σ → Prop} :
    Ensures (set s' : EStateM ε σ PUnit) s Q ↔ Q (.ok ()) s' := Iff.rfl

theorem ensures_modify {Q : Except ε PUnit → σ → Prop} :
    Ensures (modify f : EStateM ε σ PUnit) s Q ↔ Q (.ok ()) (f s) := Iff.rfl

theorem ensures_map : Ensures (f <$> p) s R ↔ Ensures p s fun r s' => R (r.map f) s' := by
  simp only [Ensures, Functor.map, EStateM.map]
  cases p s <;> rfl

/-- What the computation returns or fails with, and the state that it leaves. -/
def execute (p : EStateM ε σ α) (s : σ) : Except ε α × σ :=
  match p s with
  | .ok a s' => (.ok a, s')
  | .error e s' => (.error e, s')

theorem ensures_iff_execute : Ensures p s Q ↔ Q (execute p s).1 (execute p s).2 := by
  rw [Ensures, execute]
  cases p s <;> rfl

/-- Whatever the computation returns or fails with, it leaves a state that `T` relates to the one it
starts from. -/
def Moves (T : σ → σ → Prop) (p : EStateM ε σ α) : Prop := ∀ s, Ensures p s fun _ s' => T s s'

section Moves

variable {T : σ → σ → Prop}

theorem Moves.run (h : Moves T p) (s : σ) : T s (execute p s).2 := ensures_iff_execute.mp (h s)

section

variable [Std.Refl T]

theorem moves_pure : Moves T (pure a : EStateM ε σ α) :=
  fun s => ensures_pure.mpr (refl s)

theorem moves_throw : Moves T (throw e : EStateM ε σ α) :=
  fun s => ensures_throw.mpr (refl s)

theorem moves_get : Moves T (get : EStateM ε σ σ) :=
  fun s => ensures_get.mpr (refl s)

theorem moves_check : Moves T (check c e : EStateM ε σ Unit) :=
  fun s => ensures_check.mpr ⟨fun _ => refl s, fun _ => refl s⟩

theorem Moves.ofExcept_bind (hk : ∀ a, r = .ok a → Moves T (k a)) : Moves T (ofExcept r >>= k) :=
  fun s => .ofExcept_bind (fun _ _ => refl s) fun a h => hk a h s

end

theorem moves_modify (h : ∀ s, T s (f s)) : Moves T (modify f : EStateM ε σ PUnit) :=
  fun s => ensures_modify.mpr (h s)

theorem Moves.bind [IsTrans σ T] (hp : Moves T p) (hk : ∀ a, Moves T (k a)) :
    Moves T (p >>= k) := by
  intro s
  refine (hp s).bind (fun _ _ h => h) fun a s' h => ?_
  exact (hk a s').imp fun _ s'' h' => IsTrans.trans _ _ _ h h'

end Moves

-- Programs are taken apart by the rules above, never by running them.
attribute [irreducible] Ensures

end Lichen.Lib
