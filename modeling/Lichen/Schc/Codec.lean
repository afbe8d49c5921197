import Lichen.Lib.Stateful
import Lichen.Schc.Fragment

namespace Lichen.Schc

open Lichen.Lib

inductive SchcError where
  | noMatchingRule
  | bufferTooSmall (needed available : Nat)
  | unknownRuleId (id : UInt8)
  | tooShort (expected actual : Nat)
  | invalidPacket (reason : String)
  | nonCanonicalResidue (reason : String)
  deriving DecidableEq

def ruleLinkLocalCoap : UInt8 := 0
def ruleGlobalCoap : UInt8 := 1
def ruleIcmpv6Echo : UInt8 := 2
def ruleRplDio : UInt8 := 3
def ruleRplDao : UInt8 := 4
def ruleLinkLocalOscore : UInt8 := 5
def ruleGlobalOscore : UInt8 := 6
def ruleMqttSn : UInt8 := 7
def ruleUncompressed : UInt8 := 255

/-- A routine that writes to the caller's buffer, which keeps what was written when it fails. -/
abbrev Codec := EStateM SchcError Bytes

def store (offset : Nat) (data : Bytes) : Codec Unit := modify (overwrite · offset data)

def checkRoom (needed : Nat) : Codec Unit := do
  let out ← get
  check (out.length < needed) (.bufferTooSmall needed out.length)

variable {p : Codec Nat} {out out' s done data : Bytes}

/-- The routine returns the length of `s`, which then stands at the start of the buffer. -/
def Returns (p : Codec Nat) (out s : Bytes) : Prop :=
  ∃ out', Yields p out s.length out' ∧ out'.take s.length = s

instance : Decidable (Returns p out s) :=
  match h : p out with
  | .ok n out' =>
    if hs : n = s.length ∧ out'.take s.length = s then
      isTrue ⟨out', by rw [Yields, h, hs.1], hs.2⟩
    else
      isFalse fun ⟨out'', hy, htake⟩ => by
        rw [Yields, h] at hy
        cases hy
        exact hs ⟨rfl, htake⟩
  | .error _ _ => isFalse fun ⟨_, hy, _⟩ => by
      rw [Yields, h] at hy
      cases hy

theorem Returns.unique (hs : Returns p out s) (ht : Returns p out t) : s = t := by
  obtain ⟨_, hs, hstake⟩ := hs
  obtain ⟨_, ht, httake⟩ := ht
  rw [Yields, hs] at ht
  injection ht with hlength hout
  subst hout
  rw [← hstake, hlength, httake]

theorem returns_bind :
    Returns (q >>= k) out s ↔ ∃ a out', Yields q out a out' ∧ Returns (k a) out' s := by
  simp only [Returns, yields_bind]
  constructor
  · rintro ⟨out₂, ⟨a, out₁, hq, hk⟩, htake⟩
    exact ⟨a, out₁, hq, out₂, hk, htake⟩
  · rintro ⟨a, out₁, hq, out₂, hk, htake⟩
    exact ⟨out₂, ⟨a, out₁, hq, hk⟩, htake⟩

theorem returns_check [Decidable c] :
    Returns (check c e >>= fun _ => p) out s ↔ ¬c ∧ Returns p out s := by
  simp only [returns_bind, yields_check]
  constructor
  · rintro ⟨_, _, ⟨hc, rfl⟩, h⟩
    exact ⟨hc, h⟩
  · rintro ⟨hc, h⟩
    exact ⟨(), out, ⟨hc, rfl⟩, h⟩

theorem returns_ofExcept :
    Returns (ofExcept r >>= k) out s ↔ ∃ a, r = .ok a ∧ Returns (k a) out s := by
  simp only [returns_bind, yields_ofExcept]
  constructor
  · rintro ⟨a, _, ⟨hr, rfl⟩, h⟩
    exact ⟨a, hr, h⟩
  · rintro ⟨a, hr, h⟩
    exact ⟨a, out, ⟨hr, rfl⟩, h⟩

theorem returns_get : Returns (get >>= k) out s ↔ Returns (k out) out s := by
  simp only [returns_bind, yields_get]
  constructor
  · rintro ⟨_, _, ⟨rfl, rfl⟩, h⟩
    exact h
  · intro h
    exact ⟨out, out, ⟨rfl, rfl⟩, h⟩

theorem checkRoom_bind : (checkRoom needed >>= fun _ => p) = get >>= fun out =>
    check (out.length < needed) (.bufferTooSmall needed out.length) >>= fun _ => p := by
  rw [checkRoom, bind_assoc]

theorem returns_checkRoom :
    Returns (checkRoom needed >>= fun _ => p) out s ↔ needed ≤ out.length ∧ Returns p out s := by
  rw [checkRoom_bind, returns_get, returns_check, Nat.not_lt]

theorem not_returns_throw : ¬Returns (throw e) out s :=
  fun ⟨_, hy, _⟩ => not_yields_throw hy

theorem check_bind_of [Decidable c] (h : c) : (check c e >>= fun _ => p) out = .error e out := by
  simp only [check, if_pos h]
  rfl

theorem check_bind_of_not [Decidable c] (h : ¬c) : (check c e >>= fun _ => p) = p := by
  simp only [check, if_neg h]
  rfl

theorem checkRoom_of_lt (h : out.length < needed) :
    (checkRoom needed >>= fun _ => p) out = .error (.bufferTooSmall needed out.length) out := by
  rw [checkRoom_bind]
  exact check_bind_of h

theorem checkRoom_of_le (h : needed ≤ out.length) :
    (checkRoom needed >>= fun _ => p) out = p out := by
  rw [checkRoom_bind]
  exact congrFun (check_bind_of_not (Nat.not_lt.mpr h)) out

structure Holding (out done : Bytes) (n : Nat) : Prop where
  take_eq : out.take done.length = done
  length_eq : out.length = n

theorem holding_nil : Holding out [] out.length := ⟨rfl, rfl⟩

theorem Holding.store (h : Holding out done n) (hoffset : done.length = offset)
    (hroom : offset + data.length ≤ n)
    (hrest : ∀ out', Holding out' (done ++ data) n → Returns p out' s) :
    Returns (store offset data >>= fun _ => p) out s := by
  subst hoffset
  refine returns_bind.mpr ⟨(), _, yields_modify.mpr rfl, hrest _ ⟨?_, ?_⟩⟩
  · rw [List.length_append, take_overwrite (by rw [h.length_eq]; omega), h.take_eq]
  · rw [length_overwrite (by rw [h.length_eq]; omega), h.length_eq]

theorem Holding.replace (h : Holding out (pre ++ (mid ++ post)) n)
    (hoffset : pre.length = offset) (hmid : mid'.length = mid.length)
    (hrest : ∀ out', Holding out' (pre ++ (mid' ++ post)) n → Returns p out' s) :
    Returns (Schc.store offset mid' >>= fun _ => p) out s := by
  subst hoffset
  obtain ⟨rest, hout⟩ : ∃ rest, out = pre ++ (mid ++ (post ++ rest)) := by
    refine ⟨out.drop (pre ++ (mid ++ post)).length, ?_⟩
    have hsplit := List.take_append_drop (pre ++ (mid ++ post)).length out
    rw [h.take_eq] at hsplit
    simpa using hsplit.symm
  have hnew : overwrite out pre.length mid' = (pre ++ (mid' ++ post)) ++ rest := by
    rw [hout, overwrite, List.take_left, hmid, ← List.drop_drop, List.drop_left, List.drop_left]
    simp only [List.append_assoc]
  refine returns_bind.mpr ⟨(), _, yields_modify.mpr rfl, hrest _ ⟨?_, ?_⟩⟩
  · rw [hnew, List.take_left]
  · rw [hnew, ← h.length_eq, hout]
    simp only [List.length_append, hmid]
    omega

theorem Holding.pure (h : Holding out s n) (hlength : needed = s.length) :
    Returns (pure needed) out s :=
  ⟨out, yields_pure.mpr ⟨hlength.symm, rfl⟩, h.take_eq⟩

theorem Holding.last (h : Holding out done n) (hoffset : done.length = offset)
    (hneeded : needed = offset + data.length) (hroom : needed ≤ n) (hs : done ++ data = s) :
    Returns (Schc.store offset data >>= fun _ => Pure.pure needed) out s := by
  subst hs
  refine h.store hoffset (by omega) fun out' h' => h'.pure ?_
  rw [List.length_append]
  omega

end Lichen.Schc
