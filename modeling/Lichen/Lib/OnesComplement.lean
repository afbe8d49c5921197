import Lichen.Lib.Bytes

namespace Lichen.Lib

def ocAdd (a b : Nat) : Nat :=
  let s := a + b
  if s >>> 16 ≠ 0 then (s &&& 0xFFFF) + (s >>> 16) else s

/-- The one's complement word of a sum: zero only for the sum zero, and 0xFFFF for the other
multiples of 0xFFFF. -/
def ocWord (x : Nat) : Nat := if x = 0 then 0 else (x - 1) % 0xFFFF + 1

/-- The sum of the big-endian words of a byte string; a last single byte is the upper half of a
word. -/
def wordSum : Bytes → Nat
  | a :: b :: rest => a.toNat * 256 + b.toNat + wordSum rest
  | [a] => a.toNat * 256
  | [] => 0

theorem ocWord_le (x : Nat) : ocWord x ≤ 0xFFFF := by
  rw [ocWord]
  split <;> omega

theorem ocWord_of_le (h : x ≤ 0xFFFF) : ocWord x = x := by
  rw [ocWord]
  split <;> omega

theorem carry_eq (s : Nat) : (s &&& 0xFFFF) + (s >>> 16) = s % 2 ^ 16 + s / 2 ^ 16 := by
  rw [show (0xFFFF : Nat) = 2 ^ 16 - 1 from rfl, Nat.and_two_pow_sub_one_eq_mod,
    Nat.shiftRight_eq_div_pow]

theorem ocAdd_eq (ha : a ≤ 0xFFFF) (hb : b ≤ 0xFFFF) :
    ocAdd a b = if a + b > 0xFFFF then a + b - 0xFFFF else a + b := by
  rw [ocAdd, carry_eq, Nat.shiftRight_eq_div_pow]
  split <;> split <;> omega

theorem ocAdd_ocWord (x y : Nat) : ocAdd (ocWord x) (ocWord y) = ocWord (x + y) := by
  rw [ocAdd_eq (ocWord_le x) (ocWord_le y)]
  simp only [ocWord]
  split <;> split <;> split <;> split <;> omega

theorem ocWord_ocWord_add (x y : Nat) : ocWord (ocWord x + y) = ocWord (x + y) := by
  simp only [ocWord]
  split <;> split <;> split <;> omega

theorem ocAdd_ocWord_of_le (x : Nat) (h : b ≤ 0xFFFF) : ocAdd (ocWord x) b = ocWord (x + b) := by
  rw [← ocAdd_ocWord, ocWord_of_le h]

theorem word_le (a b : UInt8) : a.toNat * 256 + b.toNat ≤ 0xFFFF := by
  have ha := a.toNat_lt
  have hb := b.toNat_lt
  omega

theorem wordSum_append (l r : Bytes) (h : l.length % 2 = 0) :
    wordSum (l ++ r) = wordSum l + wordSum r := by
  induction l using wordSum.induct with
  | case1 a b rest ih =>
    rw [List.cons_append, List.cons_append, wordSum, wordSum, ih (by simp at h; omega)]
    omega
  | case2 => simp at h
  | case3 => simp [wordSum]

theorem ocWord_add_complement (hx : 0 < x) :
    ocWord (x + if 0xFFFF - ocWord x = 0 then 0xFFFF else 0xFFFF - ocWord x) = 0xFFFF := by
  have hword : ocWord x = (x - 1) % 0xFFFF + 1 := if_neg (by omega)
  have hsum : ∀ c, ocWord (x + c) = (x + c - 1) % 0xFFFF + 1 := fun c => if_neg (by omega)
  rw [hsum, hword]
  split <;> omega

/-- A complement equals the word that makes the sum zero, unless that word is the other zero. -/
theorem complement_iff_ocWord_add (hx : 0 < x) (hc : c ≤ 0xFFFF) :
    (0xFFFF - ocWord x = c ↔ ocWord (x + c) = 0xFFFF) ↔ ¬(c = 0xFFFF ∧ 0xFFFF ∣ x + c) := by
  rw [ocWord, if_neg (by omega), ocWord, if_neg (by omega)]
  omega

theorem complement_of_ocWord (hc : c ≤ 0xFFFF) (hx : 0 < x) (h : ocWord (x + c) = 0xFFFF) :
    (if 0xFFFF - ocWord x = 0 then 0xFFFF else 0xFFFF - ocWord x) = if c = 0 then 0xFFFF else c := by
  have hword : ocWord x = (x - 1) % 0xFFFF + 1 := if_neg (by omega)
  have hsum : ocWord (x + c) = (x + c - 1) % 0xFFFF + 1 := if_neg (by omega)
  rw [hword]
  split <;> split <;> omega

end Lichen.Lib
