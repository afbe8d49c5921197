import Lichen.Core.Types

namespace Lichen.Core

open Lichen.Lib List

structure Packer where
  addr : Bytes
  acc : UInt8
  nBits : Nat
  out : Nat

def Packer.push (p : Packer) (rawBit : Bool) : Packer :=
  let acc := (p.acc <<< 1) ||| (!rawBit).toUInt8
  if p.nBits + 1 = 8 then
    if p.out < 16 then ⟨p.addr.set p.out acc, 0, 0, p.out + 1⟩ else ⟨p.addr, 0, 0, p.out⟩
  else ⟨p.addr, acc, p.nBits + 1, p.out⟩

/-- The bits in front of the first one, most significant bit of the first byte first. -/
def leadingOnes : List Bool → Nat
  | [] => 0
  | bit :: rest => if bit then 0 else leadingOnes rest + 1

def yggAddrByLoop (pubkey : PublicKey) : Bytes :=
  let leadingOnes := leadingOnes (bits pubkey.toList)
  ((List.range' (leadingOnes + 1) (255 - leadingOnes)).foldl
    (fun (p : Packer) i => p.push (bitAt pubkey.toList i))
    ⟨[0x02, UInt8.ofNat leadingOnes] ++ List.replicate 14 0, 0, 0, 2⟩).addr

theorem Packer.addr_foldl_of_lt (l : List Bool) (p : Packer) (h : p.nBits + l.length < 8) :
    (l.foldl push p).addr = p.addr := by
  induction l generalizing p with
  | nil => rfl
  | cons b l ih =>
    rw [length_cons] at h
    have hpush : p.push b = ⟨p.addr, (p.acc <<< 1) ||| (!b).toUInt8, p.nBits + 1, p.out⟩ :=
      if_neg (by omega)
    rw [foldl_cons, hpush, ih _ (by dsimp only; omega)]

theorem length_lt_or_octet (l : List Bool) : l.length < 8 ∨
    ∃ b₇ b₆ b₅ b₄ b₃ b₂ b₁ b₀ rest, l = b₇ :: b₆ :: b₅ :: b₄ :: b₃ :: b₂ :: b₁ :: b₀ :: rest := by
  obtain _ | ⟨b₇, _ | ⟨b₆, _ | ⟨b₅, _ | ⟨b₄, _ | ⟨b₃, _ | ⟨b₂, _ | ⟨b₁, _ | ⟨b₀, rest⟩⟩⟩⟩⟩⟩⟩⟩ := l
  all_goals simp

theorem packBits_of_lt (h : l.length < 8) : packBits l = [] := by
  unfold packBits
  split
  · simp only [length_cons] at h
    omega
  · rfl

section

variable (l : List Bool)

theorem bits_packBits : bits (packBits l) = l.take (8 * (l.length / 8)) := by
  induction hn : l.length using Nat.strong_induction_on generalizing l with
  | _ n ih =>
    obtain hlt | ⟨b₇, b₆, b₅, b₄, b₃, b₂, b₁, b₀, rest, rfl⟩ := length_lt_or_octet l
    · rw [packBits_of_lt hlt, show n / 8 = 0 by omega]
      rfl
    · have hoctet : ∀ b₇ b₆ b₅ b₄ b₃ b₂ b₁ b₀ : Bool, byteBits ([b₇, b₆, b₅, b₄, b₃, b₂, b₁, b₀].foldl
          (fun acc bit => (acc <<< 1) ||| bit.toUInt8) 0) = [b₇, b₆, b₅, b₄, b₃, b₂, b₁, b₀] := by
        decide
      simp only [length_cons] at hn
      rw [packBits, bits_cons, hoctet, ih rest.length (by omega) rest rfl,
        show 8 * (n / 8) = 8 * (rest.length / 8) + 8 by omega]
      rfl

theorem length_packBits : (packBits l).length = l.length / 8 := by
  have h := congrArg List.length (bits_packBits l)
  rw [length_bits, length_take] at h
  omega

theorem Packer.addr_foldl (head : Bytes) (k : Nat) (hk : head.length + k = 16) :
    (l.foldl push ⟨head ++ List.replicate k 0, 0, 0, head.length⟩).addr =
      head ++ ((packBits (l.map (!·))).take k ++ List.replicate (k - l.length / 8) 0) := by
  induction hn : l.length using Nat.strong_induction_on generalizing l head k with
  | _ n ih =>
    obtain hlt | ⟨b₇, b₆, b₅, b₄, b₃, b₂, b₁, b₀, rest, rfl⟩ := length_lt_or_octet l
    · rw [addr_foldl_of_lt l _ (by simpa using hlt), packBits_of_lt (by simpa using hlt),
        show n / 8 = 0 by omega]
      simp
    · simp only [length_cons] at hn
      cases k with
      | zero =>
        have hrest := ih rest.length (by omega) rest head 0 hk rfl
        have hout : ¬head.length < 16 := by omega
        simpa [push, hout, packBits] using hrest
      | succ k =>
        have hrest := ih rest.length (by omega) rest (head ++ [[!b₇, !b₆, !b₅, !b₄, !b₃, !b₂, !b₁,
          !b₀].foldl (fun (acc : UInt8) bit => (acc <<< 1) ||| bit.toUInt8) 0]) k (by simp; omega) rfl
        have hout : head.length < 16 := by omega
        simpa [push, hout, packBits, replicate_succ, set_append_right,
          show k + 1 - n / 8 = k - rest.length / 8 by omega] using hrest

end

theorem leadingOnes_lt (h : true ∈ l) : leadingOnes l < l.length := by
  induction l with
  | nil => simp at h
  | cons b l ih =>
    cases b with
    | true => simp [leadingOnes]
    | false => simpa [leadingOnes] using ih (by simpa using h)

theorem map_bitAt_range' (data : Bytes) (i n : Nat) (h : i + n = 8 * data.length) :
    (List.range' i n).map (bitAt data) = (bits data).drop i := by
  apply ext_getElem?
  intro j
  by_cases hj : j < n
  · simp [hj, getElem?_bits (show i + j < 8 * data.length by omega)]
  · simp [hj]
    omega

section

variable (pubkey : PublicKey)

def following : List Bool :=
  (bits pubkey.toList).drop (leadingOnes (bits pubkey.toList) + 1)

theorem length_following : (following pubkey).length = 255 - leadingOnes (bits pubkey.toList) := by
  simp [following, Nat.sub_add_eq, Nat.sub_right_comm]

/-- The loop writes the number of leading zeros and the bytes of the inverted bits behind the first
one, cut or filled to the size of an address. -/
theorem yggAddrByLoop_eq (h : true ∈ bits pubkey.toList) :
    yggAddrByLoop pubkey = [0x02, UInt8.ofNat (leadingOnes (bits pubkey.toList))] ++
      ((packBits ((following pubkey).map (!·))).take 14 ++
        List.replicate (14 - (255 - leadingOnes (bits pubkey.toList)) / 8) 0) := by
  have hlt := leadingOnes_lt h
  have hlength : (bits pubkey.toList).length = 256 := by simp
  rw [yggAddrByLoop, ← foldl_map (f := bitAt pubkey.toList) (g := Packer.push),
    map_bitAt_range' _ _ _ (by simp; omega)]
  have hloop := Packer.addr_foldl (following pubkey)
    [0x02, UInt8.ofNat (leadingOnes (bits pubkey.toList))] 14 rfl
  rw [length_following] at hloop
  exact hloop

end

theorem length_takeWhile_not : (l.takeWhile (!·)).length = leadingOnes l := by
  induction l with
  | nil => rfl
  | cons b l ih => cases b <;> simp [leadingOnes, ih]

theorem true_mem_bits (h : pubkey ≠ List.Vector.replicate 32 0) : true ∈ bits pubkey.toList := by
  by_contra hfalse
  have hbits : bits pubkey.toList = List.replicate 256 false := by
    refine eq_replicate_iff.mpr ⟨by simp, fun b hb => ?_⟩
    cases b with
    | false => rfl
    | true => exact absurd hb hfalse
  exact h (List.Vector.eq _ _ (bits_injective (hbits.trans (by decide +kernel))))

/-- The packing loop computes the native address of every key. -/
theorem toList_yggAddrFromPubkey (pubkey : PublicKey) :
    (yggAddrFromPubkey pubkey).toList = yggAddrByLoop pubkey := by
  by_cases hzero : pubkey = List.Vector.replicate 32 0
  · subst hzero
    decide +kernel
  · rw [yggAddrByLoop_eq pubkey (true_mem_bits hzero), yggAddrFromPubkey, length_takeWhile_not,
      ← following, toList_toArray_of_le (by grind), append_assoc]
    simp [length_packBits, length_following, Nat.sub_add_eq]
    omega

theorem take_packBits_inj {l m : List Bool} (h : l.length = m.length) :
    (packBits (l.map (!·))).take 14 = (packBits (m.map (!·))).take 14 ↔
      l.take (min 112 (8 * (l.length / 8))) = m.take (min 112 (8 * (l.length / 8))) := by
  have hbits (l : List Bool) : bits ((packBits (l.map (!·))).take 14) =
      (l.take (min 112 (8 * (l.length / 8)))).map (!·) := by
    simp [bits_take, bits_packBits, take_take, map_take]
  constructor
  · intro heq
    have hmap := congrArg bits heq
    rw [hbits, hbits, ← h] at hmap
    exact map_injective_iff.mpr (fun a b hab => by simpa using hab) hmap
  · intro heq
    apply bits_injective
    rw [hbits, hbits, ← h, heq]

/-- Two keys have one address if and only if they have as many leading zeros and agree on the bits
behind the first one that an address has room for. -/
theorem yggAddrByLoop_eq_iff (a b : PublicKey) (ha : a ≠ List.Vector.replicate 32 0)
    (hb : b ≠ List.Vector.replicate 32 0) :
    (yggAddrByLoop a = yggAddrByLoop b ↔
      let z := leadingOnes (bits a.toList)
      leadingOnes (bits b.toList) = z ∧
        (following a).take (min 112 (8 * ((255 - z) / 8))) =
          (following b).take (min 112 (8 * ((255 - z) / 8)))) ∧
    (yggAddrByLoop a).head? = some 0x02 := by
  have hlta := leadingOnes_lt (true_mem_bits ha)
  have hltb := leadingOnes_lt (true_mem_bits hb)
  simp only [length_bits, List.Vector.toList_length] at hlta hltb
  have hbyte : UInt8.ofNat (leadingOnes (bits a.toList)) = UInt8.ofNat (leadingOnes (bits b.toList)) ↔
      leadingOnes (bits b.toList) = leadingOnes (bits a.toList) := by
    rw [← UInt8.toNat_inj, UInt8.toNat_ofNat', UInt8.toNat_ofNat']
    omega
  rw [yggAddrByLoop_eq a (true_mem_bits ha), yggAddrByLoop_eq b (true_mem_bits hb)]
  refine ⟨?_, rfl⟩
  simp only [cons_append, nil_append, List.cons.injEq, true_and, hbyte]
  refine and_congr_right fun hz => ?_
  have hlength : (following a).length = (following b).length := by simp [length_following, hz]
  rw [hz, append_cancel_right_eq, take_packBits_inj hlength, length_following]

theorem yggAddrByLoop_eq_iff_of_last :
    yggAddrByLoop (toArray 32 [1]) =
      yggAddrByLoop (toArray 32 (1 :: (List.replicate 30 0 ++ [1]))) := by
  refine (yggAddrByLoop_eq_iff _ _ ?_ ?_).1.mpr ?_
  all_goals decide +kernel

end Lichen.Core
