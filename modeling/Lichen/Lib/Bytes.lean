import Mathlib.Data.List.Induction
import Mathlib.Data.Vector.Basic
import Mathlib.Tactic.Ring

namespace Lichen.Lib

open List

abbrev Bytes := List UInt8

def beNat (bs : Bytes) : Nat := bs.foldl (fun acc b => acc * 256 + b.toNat) 0

def beBytes : Nat → Nat → Bytes
  | 0, _ => []
  | n + 1, v => beBytes n (v / 256) ++ [UInt8.ofNat v]

@[simp] theorem beNat_nil : beNat [] = 0 := rfl

@[simp] theorem beNat_snoc (bs : Bytes) (b : UInt8) :
    beNat (bs ++ [b]) = beNat bs * 256 + b.toNat := by
  simp [beNat]

theorem beNat_append (as bs : Bytes) :
    beNat (as ++ bs) = beNat as * 256 ^ bs.length + beNat bs := by
  induction bs using List.reverseRecOn with
  | nil => simp
  | append_singleton bs b ih =>
    rw [← append_assoc, beNat_snoc, beNat_snoc, ih, length_append,
      length_singleton, pow_succ]
    ring

theorem beNat_lt (bs : Bytes) : beNat bs < 256 ^ bs.length := by
  induction bs using List.reverseRecOn with
  | nil => simp
  | append_singleton bs b ih =>
    have hb : b.toNat < 256 := b.toNat_lt
    rw [beNat_snoc, length_append, length_singleton, pow_succ]
    omega

@[simp] theorem length_beBytes (n v : Nat) : (beBytes n v).length = n := by
  induction n generalizing v with
  | zero => rfl
  | succ n ih => simp [beBytes, ih]

theorem beNat_beBytes (n v : Nat) : beNat (beBytes n v) = v % 256 ^ n := by
  induction n generalizing v with
  | zero => simp [beBytes, Nat.mod_one]
  | succ n ih =>
    have byte : (UInt8.ofNat v).toNat = v % 256 := UInt8.toNat_ofNat'
    rw [beBytes, beNat_snoc, ih, byte, pow_succ', Nat.mod_mul, Nat.mul_comm, Nat.add_comm]

theorem beNat_beBytes_of_lt (h : v < 256 ^ n) : beNat (beBytes n v) = v := by
  rw [beNat_beBytes, Nat.mod_eq_of_lt h]

theorem beBytes_beNat (bs : Bytes) : beBytes bs.length (beNat bs) = bs := by
  induction bs using List.reverseRecOn with
  | nil => rfl
  | append_singleton bs b ih =>
    have hb : b.toNat < 256 := b.toNat_lt
    rw [length_append, length_singleton, beBytes, beNat_snoc]
    congr 1
    · rw [Nat.mul_comm, Nat.mul_add_div (by decide), Nat.div_eq_of_lt hb, Nat.add_zero, ih]
    · congr 1
      apply UInt8.toNat_inj.mp
      rw [UInt8.toNat_ofNat']
      omega

theorem beBytes_inj (hv : v < 256 ^ n) (hw : w < 256 ^ n) (h : beBytes n v = beBytes n w) :
    v = w := by
  rw [← beNat_beBytes_of_lt hv, h, beNat_beBytes_of_lt hw]

theorem beBytes_mul_add (m n a : Nat) (h : b < 256 ^ n) :
    beBytes (m + n) (a * 256 ^ n + b) = beBytes m a ++ beBytes n b := by
  induction n generalizing b with
  | zero =>
    have hb : b = 0 := by simpa using h
    simp [hb, beBytes]
  | succ n ih =>
    have hdiv : (a * 256 ^ (n + 1) + b) / 256 = a * 256 ^ n + b / 256 := by
      rw [pow_succ, ← Nat.mul_assoc]
      omega
    have hlow : UInt8.ofNat (a * 256 ^ (n + 1) + b) = UInt8.ofNat b := by
      apply UInt8.toNat_inj.mp
      rw [UInt8.toNat_ofNat', UInt8.toNat_ofNat', pow_succ, ← Nat.mul_assoc]
      omega
    have hlt : b / 256 < 256 ^ n := Nat.div_lt_of_lt_mul (by rwa [pow_succ, Nat.mul_comm] at h)
    rw [← Nat.add_assoc, beBytes, hdiv, hlow, ih hlt, append_assoc, beBytes]

theorem beBytes_shiftLeft_or (m n a : Nat) (h : b < 256 ^ n) :
    beBytes (m + n) (a <<< (8 * n) ||| b) = beBytes m a ++ beBytes n b := by
  have hpow : (2 : Nat) ^ (8 * n) = 256 ^ n := by rw [Nat.pow_mul]
  rw [← Nat.shiftLeft_add_eq_or_of_lt (by rwa [hpow]), Nat.shiftLeft_eq, hpow,
    beBytes_mul_add m n a h]

/-- The first `n` bytes as a fixed-size array; a shorter slice is padded with zeros. -/
def toArray (n : Nat) (bs : Bytes) : List.Vector UInt8 n :=
  ⟨(bs ++ List.replicate n 0).take n, by simp⟩

@[simp] theorem toArray_toList (v : List.Vector UInt8 n) : toArray n v.toList = v := by
  apply List.Vector.eq
  exact take_left' v.toList_length

theorem toList_toArray (h : bs.length = n) : (toArray n bs).toList = bs :=
  take_left' h

theorem toList_toArray_of_le (h : bs.length ≤ n) :
    (toArray n bs).toList = bs ++ List.replicate (n - bs.length) 0 := by
  show (bs ++ List.replicate n 0).take n = _
  rw [take_append, take_of_length_le h, take_replicate, Nat.min_eq_left (by omega)]

section Extract

variable {α : Type u} {l : List α} {a b : Nat}

theorem extract_append_left (h : b ≤ l.length) : (l ++ r).extract a b = l.extract a b := by
  rw [List.extract, List.extract]
  by_cases ha : a ≤ b
  · rw [drop_append_of_le_length (by omega), take_append_of_le_length (by simp; omega)]
  · have hzero : b - a = 0 := by omega
    simp [hzero]

theorem extract_append_right (h : l.length ≤ a) :
    (l ++ r).extract a b = r.extract (a - l.length) (b - l.length) := by
  rw [List.extract, List.extract, drop_append, drop_eq_nil_of_le h, nil_append]
  congr 1
  omega

theorem length_extract_of_le (h : b ≤ l.length) : (l.extract a b).length = b - a := by
  rw [List.extract, length_take, length_drop]
  omega

theorem drop_eq_extract_append (l : List α) (h : a ≤ b) : l.drop a = l.extract a b ++ l.drop b := by
  have hsplit := take_append_drop (b - a) (l.drop a)
  rw [drop_drop, Nat.add_sub_cancel' h] at hsplit
  exact hsplit.symm

theorem getD_drop (l : List α) (a i : Nat) (d : α) : (l.drop a).getD i d = l.getD (a + i) d := by
  rw [getD_eq_getElem?_getD, getD_eq_getElem?_getD, List.getElem?_drop]

theorem extract_drop (l : List α) (n a b : Nat) :
    (l.drop n).extract a b = l.extract (n + a) (n + b) := by
  rw [List.extract, List.extract, drop_drop, Nat.add_sub_add_left]

theorem extract_tail (a : α) (l : List α) : (a :: l).extract 1 (1 + l.length) = l := by
  rw [List.extract, drop_one, tail_cons, Nat.add_sub_cancel_left, take_length]

theorem drop_eq_getD_cons (h : a < l.length) (d : α) : l.drop a = l.getD a d :: l.drop (a + 1) := by
  rw [drop_eq_getElem_cons h, getD_eq_getElem?_getD, List.getElem?_eq_getElem h,
    Option.getD_some]

theorem drop_eq_pair_append (h : a + 1 < l.length) (d : α) :
    l.drop a = [l.getD a d, l.getD (a + 1) d] ++ l.drop (a + 2) := by
  rw [drop_eq_getD_cons (by omega) d, drop_eq_getD_cons h d]
  rfl

theorem extract_field {pre mid post : List α} (ha : pre.length = a)
    (hb : pre.length + mid.length = b) : (pre ++ (mid ++ post)).extract a b = mid := by
  subst ha hb
  rw [extract_append_right le_rfl, List.extract]
  simp

section

variable {pieces : List (List α)} (i : Nat)

theorem flatten_eq_piece (h : pieces[i]? = some piece) :
    pieces.flatten = (pieces.take i).flatten ++ (piece ++ (pieces.drop (i + 1)).flatten) := by
  obtain ⟨hi, rfl⟩ := List.getElem?_eq_some_iff.mp h
  rw [← flatten_cons, ← flatten_append, ← drop_eq_getElem_cons hi,
    take_append_drop]

theorem extract_piece (h : pieces[i]? = some piece)
    (ha : (pieces.take i).flatten.length = a) (hb : a + piece.length = b) :
    pieces.flatten.extract a b = piece := by
  rw [flatten_eq_piece i h]
  exact extract_field ha (ha ▸ hb)

theorem drop_pieces (ha : (pieces.take i).flatten.length = a) :
    pieces.flatten.drop a = (pieces.drop i).flatten := by
  rw [← take_append_drop i pieces, flatten_append, drop_left' ha,
    take_append_drop]

theorem getD_piece (h : pieces[i]? = some [x])
    (ha : (pieces.take i).flatten.length = a) (d : α) : pieces.flatten.getD a d = x := by
  rw [flatten_eq_piece i h, ← ha, getD_eq_getElem?_getD,
    List.getElem?_append_right le_rfl, Nat.sub_self]
  rfl

end

theorem beNat_field (front back : Bytes) (h : v < 256 ^ n) :
    beNat ((front ++ (beBytes n v ++ back)).extract front.length (front.length + n)) = v := by
  rw [extract_field rfl (by rw [length_beBytes]), beNat_beBytes_of_lt h]

end Extract

section Overwrite

variable {α : Type u} {l data : List α} {offset a b : Nat}

def overwrite (l : List α) (offset : Nat) (data : List α) : List α :=
  l.take offset ++ (data ++ l.drop (offset + data.length))

theorem length_overwrite (h : offset + data.length ≤ l.length) :
    (overwrite l offset data).length = l.length := by
  simp only [overwrite, length_append, length_take, length_drop]
  omega

theorem take_overwrite (h : offset ≤ l.length) :
    (overwrite l offset data).take (offset + data.length) = l.take offset ++ data := by
  rw [overwrite, ← append_assoc]
  exact take_left' (by rw [length_append, length_take_of_le h])

def overwriteAll (l : List α) (offset : Nat) : List (List α) → List α
  | [] => l
  | piece :: pieces => overwriteAll (overwrite l offset piece) (offset + piece.length) pieces

theorem take_overwriteAll (l : List α) (offset : Nat)
    (h : offset + pieces.flatten.length ≤ l.length) :
    (overwriteAll l offset pieces).take (offset + pieces.flatten.length) =
      l.take offset ++ pieces.flatten := by
  induction pieces generalizing l offset with
  | nil => simp [overwriteAll]
  | cons piece pieces ih =>
    rw [flatten_cons, length_append] at h
    have hlength : (overwrite l offset piece).length = l.length := length_overwrite (by omega)
    have htail := ih (overwrite l offset piece) (offset + piece.length) (by rw [hlength]; omega)
    rw [take_overwrite (by omega), append_assoc, Nat.add_assoc] at htail
    rw [overwriteAll, flatten_cons, length_append]
    exact htail

theorem length_overwriteAll (l : List α) (offset : Nat)
    (h : offset + pieces.flatten.length ≤ l.length) :
    (overwriteAll l offset pieces).length = l.length := by
  induction pieces generalizing l offset with
  | nil => rfl
  | cons piece pieces ih =>
    rw [flatten_cons, length_append] at h
    have hlength : (overwrite l offset piece).length = l.length := length_overwrite (by omega)
    rw [overwriteAll, ih _ _ (by rw [hlength]; omega), hlength]

section

variable (h : offset + data.length ≤ l.length)

include h

theorem getElem?_overwrite_of_lt (hn : n < offset) : (overwrite l offset data)[n]? = l[n]? := by
  rw [overwrite, List.getElem?_append_left (by rw [length_take]; omega),
    List.getElem?_take_of_lt hn]

theorem getElem?_overwrite_mid (hle : offset ≤ n)
    (hn : n < offset + data.length) : (overwrite l offset data)[n]? = data[n - offset]? := by
  have hlength : (l.take offset).length = offset := by rw [length_take]; omega
  rw [overwrite, List.getElem?_append_right (by omega), hlength,
    List.getElem?_append_left (by omega)]

theorem getElem?_overwrite_of_le
    (hn : offset + data.length ≤ n) : (overwrite l offset data)[n]? = l[n]? := by
  have hlength : (l.take offset).length = offset := by rw [length_take]; omega
  rw [overwrite, List.getElem?_append_right (by omega), hlength,
    List.getElem?_append_right (by omega), List.getElem?_drop]
  congr 1
  omega

theorem extract_overwrite_left (hb : b ≤ offset) :
    (overwrite l offset data).extract a b = l.extract a b := by
  rw [overwrite, extract_append_left (by rw [length_take]; omega), List.extract, List.extract,
    drop_take, take_take, Nat.min_eq_left (by omega)]

theorem extract_overwrite_self :
    (overwrite l offset data).extract offset (offset + data.length) = data := by
  have hlength : (l.take offset).length = offset := length_take_of_le (by omega)
  exact extract_field hlength (by rw [hlength])

theorem extract_overwrite_right
    (ha : offset + data.length ≤ a) : (overwrite l offset data).extract a b = l.extract a b := by
  have hlength : (l.take offset ++ data).length = offset + data.length := by
    rw [length_append, length_take_of_le (by omega)]
  rw [overwrite, ← append_assoc, extract_append_right (by omega), hlength, extract_drop]
  by_cases hb : offset + data.length ≤ b
  · rw [Nat.add_sub_cancel' ha, Nat.add_sub_cancel' hb]
  · have hempty : b - a = 0 := by omega
    rw [List.extract, List.extract, Nat.add_sub_add_left, Nat.sub_sub_sub_cancel_right ha, hempty,
      take_zero, take_zero]

end

end Overwrite

end Lichen.Lib
