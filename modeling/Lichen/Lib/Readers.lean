import Lichen.Lib.Bytes
import Lichen.Lib.Guard

namespace Lichen.Lib

abbrev ByteReader (ε α : Type) := StateT Bytes (Except ε) α

variable {ε ε' α : Type} {p : ByteReader ε α} [Decidable c] {bad : ε}

def Avoids (p : ByteReader ε α) (bad : ε) : Prop := ∀ input, p input ≠ .error bad

theorem avoids_pure (a : α) : Avoids (pure a : ByteReader ε α) bad := nofun

theorem avoids_throw (h : e ≠ bad) : Avoids (throw e : ByteReader ε α) bad :=
  fun _ heq => h (Except.error.inj heq)

theorem avoids_lift {x : Except ε α} (h : x ≠ .error bad) :
    Avoids (liftM x : ByteReader ε α) bad := by
  intro input
  cases x with
  | error => exact fun heq => h (congrArg _ (Except.error.inj heq))
  | ok => exact nofun

theorem Avoids.bind (hp : Avoids p bad) (hk : ∀ a, Avoids (k a) bad) : Avoids (p >>= k) bad := by
  intro input
  have hinput := hp input
  simp only [Bind.bind, StateT.bind]
  cases h : p input with
  | error =>
    rw [h] at hinput
    exact fun heq => hinput (congrArg _ (Except.error.inj heq))
  | ok read => exact hk read.1 read.2

theorem Avoids.ite (hp : Avoids p bad) (hq : Avoids q bad) : Avoids (if c then p else q) bad := by
  split
  · exact hp
  · exact hq

theorem Avoids.guard {k : β → ByteReader ε α} (he : e ≠ bad) (hp : Avoids p bad) :
    Avoids (if c then throw e >>= k else p) bad :=
  .ite (fun _ heq => he (Except.error.inj heq)) hp

theorem Avoids.run' (h : Avoids p bad) (input : Bytes) : p.run' input ≠ .error bad := by
  have hinput := h input
  simp only [StateT.run', Functor.map, Except.map]
  cases hp : p input with
  | error =>
    rw [hp] at hinput
    exact fun heq => hinput (congrArg _ (Except.error.inj heq))
  | ok => exact nofun

def Reads (p : ByteReader ε α) (E : α → Bytes → Prop) : Prop :=
  ∀ input a rest, p input = .ok (a, rest) ↔ ∃ bs, E a bs ∧ input = bs ++ rest

section Reads

variable {input : Bytes}

theorem reads_pure (a : α) : Reads (pure a : ByteReader ε α) fun b bs => b = a ∧ bs = [] := by
  intro input b rest
  constructor
  · rintro ⟨⟩
    exact ⟨[], ⟨rfl, rfl⟩, rfl⟩
  · rintro ⟨_, ⟨rfl, rfl⟩, rfl⟩
    rfl

theorem bind_apply_eq_ok :
    (p >>= k) input = .ok r ↔ ∃ a rest, p input = .ok (a, rest) ∧ k a rest = .ok r := by
  simp only [Bind.bind, StateT.bind]
  cases p input with
  | error => exact ⟨nofun, nofun⟩
  | ok read =>
    constructor
    · exact fun h => ⟨read.1, read.2, rfl, h⟩
    · rintro ⟨_, _, ⟨⟩, h⟩
      exact h

theorem bind_apply_of_ok (h : p input = .ok (a, rest)) : (p >>= k) input = k a rest := by
  simp only [Bind.bind, StateT.bind, h, Except.bind]

theorem guard_apply_eq_ok {k : β → ByteReader ε α} :
    (if c then throw e >>= k else p) input = .ok r ↔ ¬c ∧ p input = .ok r := by
  split
  · rename_i hc
    exact ⟨nofun, fun h => absurd hc h.1⟩
  · rename_i hc
    exact ⟨fun h => ⟨hc, h⟩, fun h => h.2⟩

theorem Reads.bind_eq_ok (hp : Reads p E) :
    (p >>= k) input = .ok r ↔ ∃ a bs rest, E a bs ∧ input = bs ++ rest ∧ k a rest = .ok r := by
  rw [bind_apply_eq_ok]
  constructor
  · rintro ⟨a, rest, hread, h⟩
    obtain ⟨bs, hE, hinput⟩ := (hp input a rest).mp hread
    exact ⟨a, bs, rest, hE, hinput, h⟩
  · rintro ⟨a, bs, rest, hE, hinput, h⟩
    exact ⟨a, rest, (hp input a rest).mpr ⟨bs, hE, hinput⟩, h⟩

theorem Reads.bind {F : α → β → Bytes → Prop} (hp : Reads p E) (hk : ∀ a, Reads (k a) (F a)) :
    Reads (p >>= k) fun b bs => ∃ a bs₁ bs₂, E a bs₁ ∧ F a b bs₂ ∧ bs = bs₁ ++ bs₂ := by
  intro input b rest
  rw [hp.bind_eq_ok]
  constructor
  · rintro ⟨a, bs₁, rest₁, hE, rfl, h⟩
    obtain ⟨bs₂, hF, rfl⟩ := (hk a rest₁ b rest).mp h
    exact ⟨bs₁ ++ bs₂, ⟨a, bs₁, bs₂, hE, hF, rfl⟩, (List.append_assoc ..).symm⟩
  · rintro ⟨_, ⟨a, bs₁, bs₂, hE, hF, rfl⟩, rfl⟩
    exact ⟨a, bs₁, bs₂ ++ rest, hE, List.append_assoc .., (hk a _ b rest).mpr ⟨bs₂, hF, rfl⟩⟩

theorem Reads.congr (hp : Reads p E) (h : ∀ a bs, E a bs ↔ F a bs) : Reads p F := by
  intro input a rest
  rw [hp input a rest]
  simp only [h]

theorem reads_throw (h : ∀ a bs, ¬E a bs) : Reads (throw e : ByteReader ε α) E :=
  fun _ a _ => ⟨nofun, fun ⟨bs, hE, _⟩ => absurd hE (h a bs)⟩

theorem Reads.guard {k : β → ByteReader ε α} (hp : Reads p E) :
    Reads (if c then throw e >>= k else p) fun a bs => ¬c ∧ E a bs := by
  intro input a rest
  split
  · rename_i hc
    exact ⟨nofun, fun ⟨_, hE, _⟩ => absurd hc hE.1⟩
  · rename_i hc
    rw [hp input a rest]
    simp only [hc, not_false_eq_true, true_and]

theorem Reads.of_check (hp : Reads p E) :
    Reads (if c then p else throw e) fun a bs => c ∧ E a bs := by
  intro input a rest
  split
  · rename_i hc
    rw [hp input a rest]
    simp only [hc, true_and]
  · rename_i hc
    exact ⟨nofun, fun ⟨_, hE, _⟩ => absurd hE.1 hc⟩

def ByteReader.mapError (f : ε → ε') (p : ByteReader ε α) : ByteReader ε' α :=
  fun input => (p input).mapError f

theorem Reads.mapError (hp : Reads p E) (f : ε → ε') : Reads (p.mapError f) E := by
  intro input a rest
  rw [← hp input a rest, ByteReader.mapError]
  cases p input with
  | error => exact ⟨nofun, nofun⟩
  | ok => simp only [mapError_ok, Except.ok.injEq]

theorem run'_eq_ok : p.run' input = .ok a ↔ ∃ rest, p input = .ok (a, rest) := by
  simp only [StateT.run', Functor.map, Except.map]
  cases p input with
  | error => exact ⟨nofun, nofun⟩
  | ok read =>
    obtain ⟨_, rest⟩ := read
    simp

end Reads

end Lichen.Lib
