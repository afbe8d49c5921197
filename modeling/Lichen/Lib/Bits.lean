import Lichen.Lib.Bytes
import Mathlib.Data.Nat.Bitwise

namespace Lichen.Lib

open List

def byteBits (byte : UInt8) : List Bool :=
  (List.range 8).map fun i => byte.toNat.testBit (7 - i)

def bits (data : Bytes) : List Bool := data.flatMap byteBits

def bitAt (data : Bytes) (i : Nat) : Bool :=
  (data.getD (i / 8) 0).toNat.testBit (7 - i % 8)

def natBits (n v : Nat) : List Bool := (List.range n).reverse.map v.testBit

def bitsNat (bs : List Bool) : Nat := bs.foldl (fun acc b => acc * 2 + b.toNat) 0

def packBits : List Bool → Bytes
  | b₇ :: b₆ :: b₅ :: b₄ :: b₃ :: b₂ :: b₁ :: b₀ :: rest =>
    [b₇, b₆, b₅, b₄, b₃, b₂, b₁, b₀].foldl (fun acc bit => (acc <<< 1) ||| bit.toUInt8) 0 ::
      packBits rest
  | _ => []

@[simp] theorem length_byteBits (byte : UInt8) : (byteBits byte).length = 8 := by simp [byteBits]

@[simp] theorem bits_nil : bits [] = [] := rfl

@[simp] theorem bits_cons (byte : UInt8) (data : Bytes) :
    bits (byte :: data) = byteBits byte ++ bits data :=
  rfl

theorem bits_append (data rest : Bytes) : bits (data ++ rest) = bits data ++ bits rest :=
  flatMap_append

@[simp] theorem length_bits (data : Bytes) : (bits data).length = 8 * data.length := by
  induction data with
  | nil => rfl
  | cons byte data ih => simp [ih]; omega

theorem bits_take (data : Bytes) (k : Nat) : bits (data.take k) = (bits data).take (8 * k) := by
  induction k generalizing data with
  | zero => simp
  | succ k ih =>
    cases data with
    | nil => simp
    | cons byte data =>
      rw [take_succ_cons, bits_cons, ih, bits_cons, show 8 * (k + 1) = 8 + 8 * k by omega,
        ← length_byteBits byte, take_length_add_append, length_byteBits]

theorem getElem?_bits (h : i < 8 * data.length) : (bits data)[i]? = some (bitAt data i) := by
  induction data generalizing i with
  | nil => simp at h
  | cons byte data ih =>
    rw [bits_cons]
    by_cases hi : i < 8
    · have hzero : i / 8 = 0 := by omega
      have hmod : i % 8 = i := by omega
      rw [List.getElem?_append_left (by simpa using hi), bitAt, hzero, hmod]
      simp [byteBits, hi]
    · rw [List.getElem?_append_right (by simpa using hi), length_byteBits,
        ih (by rw [length_cons] at h; omega), bitAt, bitAt,
        show i / 8 = (i - 8) / 8 + 1 by omega, show i % 8 = (i - 8) % 8 by omega]
      rfl

theorem testBit_or_shift (byte : UInt8) (bit : Bool) (hi : i < 8) (j : Nat) :
    (byte ||| (bit.toUInt8 <<< UInt8.ofNat i)).toNat.testBit j =
      (byte.toNat.testBit j || (bit && decide (i = j))) := by
  have hshift : ∀ i < 8, ((1 : UInt8) <<< UInt8.ofNat i).toNat = 2 ^ i := by decide
  cases bit with
  | false =>
    rw [show (false).toUInt8 = 0 from rfl, UInt8.zero_shiftLeft, UInt8.or_zero, Bool.false_and,
      Bool.or_false]
  | true =>
    rw [UInt8.toNat_or, Nat.testBit_or, show (true).toUInt8 = 1 from rfl, hshift i hi,
      Nat.testBit_two_pow, Bool.true_and]

theorem byteBits_or (byte : UInt8) (bit : Bool) (hi : i < 8)
    (hclear : byte.toNat.testBit (7 - i) = false) :
    byteBits (byte ||| (bit.toUInt8 <<< UInt8.ofNat (7 - i))) = (byteBits byte).set i bit := by
  apply ext_getElem
  · simp
  · intro j hj hj'
    have hj : j < 8 := by simpa using hj
    simp only [byteBits, getElem_map, getElem_range, getElem_set]
    rw [testBit_or_shift byte bit (by omega)]
    by_cases hij : i = j
    · subst hij
      simp [hclear]
    · rw [if_neg hij, decide_eq_false (by omega), Bool.and_false, Bool.or_false]

theorem bits_modify (hi : i < 8 * data.length) (hclear : bitAt data i = false) (bit : Bool) :
    bits (data.modify (i / 8) (· ||| (bit.toUInt8 <<< UInt8.ofNat (7 - i % 8)))) =
      (bits data).set i bit := by
  induction data generalizing i with
  | nil => simp at hi
  | cons byte data ih =>
    by_cases hlt : i < 8
    · have hzero : i / 8 = 0 := by omega
      have hmod : i % 8 = i := by omega
      rw [bitAt, hzero, hmod] at hclear
      rw [hzero, hmod, modify_zero_cons, bits_cons, bits_cons,
        set_append_left _ _ (by simpa using hlt), byteBits_or byte bit hlt hclear]
    · have hdiv : i / 8 = (i - 8) / 8 + 1 := by omega
      have hmod : i % 8 = (i - 8) % 8 := by omega
      rw [bitAt, hdiv, hmod] at hclear
      rw [hdiv, hmod, modify_succ_cons, bits_cons, bits_cons,
        set_append_right _ _ (by simpa using hlt), length_byteBits,
        ih (by rw [length_cons] at hi; omega) hclear]

@[simp] theorem length_natBits (n v : Nat) : (natBits n v).length = n := by simp [natBits]

theorem natBits_succ (n v : Nat) : natBits (n + 1) v = v.testBit n :: natBits n v := by
  simp [natBits, range_succ]

theorem foldl_bits (bs : List Bool) (acc : Nat) :
    bs.foldl (fun acc b => acc * 2 + b.toNat) acc = acc * 2 ^ bs.length + bitsNat bs := by
  induction bs generalizing acc with
  | nil => simp [bitsNat]
  | cons b bs ih =>
    have hfirst : bitsNat (b :: bs) = b.toNat * 2 ^ bs.length + bitsNat bs := by
      rw [bitsNat, foldl_cons, ih, Nat.zero_mul, Nat.zero_add]
    rw [foldl_cons, ih, hfirst, length_cons, pow_succ]
    ring

theorem bitsNat_cons (b : Bool) (bs : List Bool) :
    bitsNat (b :: bs) = b.toNat * 2 ^ bs.length + bitsNat bs := by
  rw [bitsNat, foldl_cons, foldl_bits, Nat.zero_mul, Nat.zero_add]

theorem bitsNat_natBits (n v : Nat) : bitsNat (natBits n v) = v % 2 ^ n := by
  induction n with
  | zero => simp [natBits, bitsNat, Nat.mod_one]
  | succ n ih =>
    rw [natBits_succ, bitsNat_cons, ih, length_natBits, Nat.toNat_testBit, pow_succ, Nat.mod_mul]
    ring

theorem bitsNat_natBits_of_lt (h : v < 2 ^ n) : bitsNat (natBits n v) = v := by
  rw [bitsNat_natBits, Nat.mod_eq_of_lt h]

theorem bitsNat_lt (bs : List Bool) : bitsNat bs < 2 ^ bs.length := by
  induction bs with
  | nil => decide
  | cons b bs ih =>
    have hfirst : b.toNat * 2 ^ bs.length ≤ 1 * 2 ^ bs.length :=
      Nat.mul_le_mul_right _ (Bool.toNat_le b)
    rw [bitsNat_cons, length_cons, pow_succ]
    omega

theorem natBits_bitsNat (bs : List Bool) : natBits bs.length (bitsNat bs) = bs := by
  induction bs with
  | nil => rfl
  | cons b bs ih =>
    have hlt := bitsNat_lt bs
    have hbit : (bitsNat (b :: bs)).testBit bs.length = b := by
      rw [bitsNat_cons, Nat.mul_comm, Nat.testBit_two_pow_mul_add _ hlt]
      cases b <;> simp
    have hlow : natBits bs.length (bitsNat (b :: bs)) = natBits bs.length (bitsNat bs) := by
      rw [natBits, natBits, map_inj_left]
      intro i hi
      rw [mem_reverse, mem_range] at hi
      rw [bitsNat_cons, Nat.mul_comm, Nat.testBit_two_pow_mul_add _ hlt, if_pos hi]
    rw [length_cons, natBits_succ, hbit, hlow, ih]

theorem byteBits_injective (h : byteBits a = byteBits b) : a = b := by
  apply UInt8.toNat_inj.mp
  rw [← bitsNat_natBits_of_lt a.toNat_lt, ← bitsNat_natBits_of_lt b.toNat_lt]
  exact congrArg bitsNat h

theorem bits_injective (h : bits data = bits rest) : data = rest := by
  induction data generalizing rest with
  | nil =>
    have hlength := congrArg List.length h
    simp only [bits_nil, length_nil, length_bits] at hlength
    exact (length_eq_zero_iff.mp (by omega)).symm
  | cons byte data ih =>
    cases rest with
    | nil =>
      have hlength := congrArg List.length h
      simp at hlength
    | cons =>
      rw [bits_cons, bits_cons] at h
      obtain ⟨hbyte, hrest⟩ := append_inj h (by simp)
      rw [byteBits_injective hbyte, ih hrest]

theorem bits_drop (data : Bytes) (k : Nat) : bits (data.drop k) = (bits data).drop (8 * k) := by
  by_cases hk : k ≤ data.length
  · have hsplit := bits_append (data.take k) (data.drop k)
    rw [take_append_drop] at hsplit
    rw [hsplit, drop_left' (by rw [length_bits, length_take, Nat.min_eq_left hk])]
  · rw [drop_eq_nil_of_le (by omega), drop_eq_nil_of_le (by rw [length_bits]; omega)]
    rfl

end Lichen.Lib
