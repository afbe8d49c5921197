import Lichen.Lib.Bytes
import Mathlib.Data.FinEnum

namespace Lichen.Lib.Cbor

/-- The reader takes `a` off every input that starts with the bytes. -/
def Takes (read : Bytes → Option (α × Bytes)) (a : α) (bytes : Bytes) : Prop :=
  ∀ rest, read (bytes ++ rest) = some (a, rest)

def Sequence (R : α → Bytes → Prop) : List α → Bytes → Prop
  | [], bytes => bytes = []
  | a :: as, bytes => ∃ front rest, R a front ∧ Sequence R as rest ∧ bytes = front ++ rest

theorem Sequence.append
    (h : Sequence R as front) (h' : Sequence R bs rest) : Sequence R (as ++ bs) (front ++ rest) := by
  induction as generalizing front with
  | nil =>
    cases h
    exact h'
  | cons a as ih =>
    obtain ⟨first, later, ha, has, rfl⟩ := h
    exact ⟨first, later ++ rest, ha, ih has, List.append_assoc _ _ _⟩

theorem Sequence.flatMap {as : List α}
    (h : ∀ a ∈ as, R (f a) (write a)) : Sequence R (as.map f) (as.flatMap write) := by
  induction as with
  | nil => rfl
  | cons a as ih =>
    obtain ⟨ha, has⟩ := List.forall_mem_cons.mp h
    exact ⟨write a, as.flatMap write, ha, ih has, List.flatMap_cons⟩

def readBytes (n : Nat) (input : Bytes) : Option (Bytes × Bytes) :=
  if input.length < n then none else some (input.take n, input.drop n)

theorem takes_readBytes (h : bytes.length = n) : Takes (readBytes n) bytes bytes := by
  intro rest
  rw [readBytes, List.length_append, if_neg (by omega), List.take_left' h, List.drop_left' h]

/-- The major type and the argument of a head of definite length. -/
def readHead : Bytes → Option ((Nat × Nat) × Bytes)
  | [] => none
  | byte :: tail =>
    let major := byte.toNat / 32
    let info := byte.toNat % 32
    if info < 24 then some ((major, info), tail)
    else if info < 28 then
      (readBytes (2 ^ (info - 24)) tail).map fun r => ((major, beNat r.1), r.2)
    else none

theorem toNat_or : ∀ m < 8, ∀ v < 32,
    (UInt8.ofNat (32 * m) ||| UInt8.ofNat v).toNat / 32 = m ∧
      (UInt8.ofNat (32 * m) ||| UInt8.ofNat v).toNat % 32 = v := by
  decide

theorem takes_short (hm : m < 8) (hv : v < 24) :
    Takes readHead (m, v) [UInt8.ofNat (32 * m) ||| UInt8.ofNat v] := by
  intro rest
  obtain ⟨hdiv, hmod⟩ := toNat_or m hm v (by omega)
  simp only [List.singleton_append, readHead, hdiv, hmod, if_pos hv]

theorem takes_wide (hm : m < 8) (hk : k < 4) (hv : v < 256 ^ 2 ^ k) :
    Takes readHead (m, v)
      ((UInt8.ofNat (32 * m) ||| UInt8.ofNat (24 + k)) :: beBytes (2 ^ k) v) := by
  intro rest
  obtain ⟨hdiv, hmod⟩ := toNat_or m hm (24 + k) (by omega)
  simp only [List.cons_append, readHead, hdiv, hmod, Nat.add_sub_cancel_left]
  rw [if_neg (by omega), if_pos (by omega), takes_readBytes (length_beBytes _ _) _, Option.map_some,
    beNat_beBytes_of_lt hv]

def readSequence (read : Bytes → Option (α × Bytes)) : Nat → Bytes → Option (List α × Bytes)
  | 0, input => some ([], input)
  | n + 1, input => do
    let (a, rest) ← read input
    let (as, rest) ← readSequence read n rest
    return (a :: as, rest)

theorem Sequence.takes {read : Bytes → Option (α × Bytes)}
    (h : Sequence (Takes read) as bytes) : Takes (readSequence read as.length) as bytes := by
  intro rest
  induction as generalizing bytes with
  | nil =>
    cases h
    rfl
  | cons a as ih =>
    obtain ⟨front, _, ha, has, rfl⟩ := h
    rw [List.length_cons, readSequence, List.append_assoc, ha _]
    simp [ih has]

end Lichen.Lib.Cbor
