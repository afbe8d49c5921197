import Lichen.Gateway.TunnelWire
import Lichen.Lib.Readers
import Mathlib.Data.FinEnum

namespace Lichen.Gateway

open Lichen.Lib

/-- The bytes behind a head, the least value that needs them and the first that needs more. -/
structure HeadRange where
  size : Nat
  least : Nat
  bound : Nat

def headRange (additional : UInt8) : Option HeadRange :=
  if additional ≤ 23 then some ⟨0, additional.toNat, additional.toNat + 1⟩
  else if additional = 24 then some ⟨1, 24, 2 ^ 8⟩
  else if additional = 25 then some ⟨2, 2 ^ 8, 2 ^ 16⟩
  else if additional = 26 then some ⟨4, 2 ^ 16, 2 ^ 32⟩
  else if additional = 27 then some ⟨8, 2 ^ 32, 2 ^ 64⟩
  else none

/-- The low five bits and the bytes behind them, of the shortest head for `v`. -/
def HeadArgument (v : Nat) (additional : UInt8) (bs : Bytes) : Prop :=
  ∃ range, headRange additional = some range ∧ range.least ≤ v ∧ v < range.bound ∧
    bs = beBytes range.size v

variable {major : UInt8}

theorem HeadArgument.cases (h : HeadArgument v additional bs) :
    (v ≤ 23 ∧ additional = UInt8.ofNat v ∧ bs = []) ∨
    (23 < v ∧ v ≤ 0xFF ∧ additional = 24 ∧ bs = beBytes 1 v) ∨
    (0xFF < v ∧ v ≤ 0xFFFF ∧ additional = 25 ∧ bs = beBytes 2 v) ∨
    (0xFFFF < v ∧ v ≤ 0xFFFFFFFF ∧ additional = 26 ∧ bs = beBytes 4 v) ∨
    (0xFFFFFFFF < v ∧ v < 2 ^ 64 ∧ additional = 27 ∧ bs = beBytes 8 v) := by
  obtain ⟨_, hrange, hleast, hbound, rfl⟩ := h
  rw [headRange] at hrange
  split at hrange
  · rename_i hle
    cases hrange
    obtain rfl : v = additional.toNat := Nat.le_antisymm (Nat.le_of_lt_succ hbound) hleast
    exact .inl ⟨UInt8.le_iff_toNat_le.mp hle, UInt8.ofNat_toNat.symm, rfl⟩
  split at hrange
  · cases hrange
    exact .inr (.inl ⟨hleast, Nat.le_of_lt_succ hbound, ‹_›, rfl⟩)
  split at hrange
  · cases hrange
    exact .inr (.inr (.inl ⟨hleast, Nat.le_of_lt_succ hbound, ‹_›, rfl⟩))
  split at hrange
  · cases hrange
    exact .inr (.inr (.inr (.inl ⟨hleast, Nat.le_of_lt_succ hbound, ‹_›, rfl⟩)))
  split at hrange
  · cases hrange
    exact .inr (.inr (.inr (.inr ⟨hleast, hbound, ‹_›, rfl⟩)))
  · cases hrange

theorem HeadArgument.cborHead_eq (h : HeadArgument v additional bs) (major : UInt8) :
    cborHead major v = ((major <<< 5) ||| additional) :: bs := by
  rw [cborHead]
  obtain ⟨hle, rfl, rfl⟩ | ⟨hlt, hle, rfl, rfl⟩ | ⟨hlt, hle, rfl, rfl⟩ | ⟨hlt, hle, rfl, rfl⟩ |
    ⟨hlt, -, rfl, rfl⟩ := h.cases
  · rw [if_pos hle]
  · rw [if_neg (Nat.not_le.mpr hlt), if_pos hle]
    rfl
  · rw [if_neg (by omega), if_neg (Nat.not_le.mpr hlt), if_pos hle]
  · rw [if_neg (by omega), if_neg (by omega), if_neg (Nat.not_le.mpr hlt), if_pos hle]
  · rw [if_neg (by omega), if_neg (by omega), if_neg (by omega), if_neg (Nat.not_le.mpr hlt)]

theorem toNat_ofNat_tiny (h : v ≤ 23) : (UInt8.ofNat v).toNat = v := by
  rw [UInt8.toNat_ofNat', Nat.mod_eq_of_lt (by omega)]

theorem HeadArgument.additional_lt (h : HeadArgument v additional bs) : additional < 32 := by
  obtain ⟨hle, rfl, rfl⟩ | ⟨-, -, rfl, -⟩ | ⟨-, -, rfl, -⟩ | ⟨-, -, rfl, -⟩ | ⟨-, -, rfl, -⟩ := h.cases
  · rw [UInt8.lt_iff_toNat_lt, toNat_ofNat_tiny hle]
    exact Nat.lt_of_le_of_lt hle (by decide)
  all_goals decide

theorem exists_headArgument (h : v < 2 ^ 64) : ∃ additional bs, HeadArgument v additional bs := by
  by_cases htiny : v ≤ 23
  · have hval := toNat_ofNat_tiny htiny
    refine ⟨UInt8.ofNat v, _, ⟨0, v, v + 1⟩, ?_, le_rfl, Nat.lt_succ_self v, rfl⟩
    have hle : UInt8.ofNat v ≤ 23 := by
      rw [UInt8.le_iff_toNat_le, hval]
      exact htiny
    rw [headRange, if_pos hle, hval]
  by_cases hone : v ≤ 0xFF
  · exact ⟨24, _, ⟨1, 24, 2 ^ 8⟩, rfl, Nat.not_le.mp htiny, Nat.lt_succ_of_le hone, rfl⟩
  by_cases htwo : v ≤ 0xFFFF
  · exact ⟨25, _, ⟨2, 2 ^ 8, 2 ^ 16⟩, rfl, Nat.not_le.mp hone, Nat.lt_succ_of_le htwo, rfl⟩
  by_cases hfour : v ≤ 0xFFFFFFFF
  · exact ⟨26, _, ⟨4, 2 ^ 16, 2 ^ 32⟩, rfl, Nat.not_le.mp htwo, Nat.lt_succ_of_le hfour, rfl⟩
  · exact ⟨27, _, ⟨8, 2 ^ 32, 2 ^ 64⟩, rfl, Nat.not_le.mp hfour, h, rfl⟩

theorem split_head (first : UInt8) :
    first = ((first >>> 5) <<< 5) ||| (first &&& 0x1F) ∧ first &&& 0x1F < 32 ∧ first >>> 5 < 8 := by
  revert first
  decide +kernel

theorem join_head (hmajor : major < 8) (hadditional : additional < 32) :
    ((major <<< 5) ||| additional) >>> 5 = major ∧
      ((major <<< 5) ||| additional) &&& 0x1F = additional := by
  have hall : ∀ major : UInt8, major < 8 → ∀ additional : UInt8, additional < 32 →
      ((major <<< 5) ||| additional) >>> 5 = major ∧
        ((major <<< 5) ||| additional) &&& 0x1F = additional := by
    decide +kernel
  exact hall major hmajor additional hadditional

namespace Reader

theorem reads_byte : Reads byte fun value bs => bs = [value] := by
  intro input value rest
  cases input with
  | nil => exact ⟨nofun, fun ⟨bs, hbs, hinput⟩ => by rw [hbs] at hinput; cases hinput⟩
  | cons first input =>
    rw [byte, Except.ok.injEq, Prod.mk.injEq]
    constructor
    · rintro ⟨rfl, rfl⟩
      exact ⟨[first], rfl, rfl⟩
    · rintro ⟨_, rfl, h⟩
      exact List.cons.inj h

theorem reads_take : Reads (take n) fun out bs => bs = out ∧ out.length = n := by
  intro input out rest
  rw [take]
  split
  · rename_i hshort
    refine ⟨nofun, ?_⟩
    rintro ⟨_, ⟨rfl, hlength⟩, rfl⟩
    rw [List.length_append] at hshort
    omega
  · rename_i hlong
    rw [Except.ok.injEq, Prod.mk.injEq]
    constructor
    · rintro ⟨rfl, rfl⟩
      exact ⟨_, ⟨rfl, List.length_take_of_le (Nat.not_lt.mp hlong)⟩,
        (List.take_append_drop n input).symm⟩
    · rintro ⟨_, ⟨rfl, rfl⟩, rfl⟩
      exact ⟨List.take_left, List.drop_left⟩

theorem reads_exact : Reads (exact expected) fun _ bs => bs = [expected] := by
  refine (reads_byte.bind fun value => (reads_pure ()).of_check).congr fun _ bs => ?_
  constructor
  · rintro ⟨value, _, _, rfl, ⟨rfl, -, rfl⟩, rfl⟩
    rfl
  · rintro rfl
    exact ⟨expected, _, _, rfl, ⟨rfl, rfl, rfl⟩, rfl⟩

theorem reads_wide (hn : n ≤ 8) :
    Reads (do return (UInt64.ofNat (beNat (← take n)), minimum) : Reader (UInt64 × UInt64))
      fun read bs => read.2 = minimum ∧ read.1.toNat < 256 ^ n ∧ bs = beBytes n read.1.toNat := by
  have hpow : 256 ^ n ≤ 2 ^ 64 := by
    calc 256 ^ n ≤ 256 ^ 8 := Nat.pow_le_pow_right (by decide) hn
      _ = 2 ^ 64 := by decide
  refine (reads_take.bind fun out => reads_pure _).congr fun read bs => ?_
  constructor
  · rintro ⟨_, out, _, ⟨rfl, rfl⟩, ⟨rfl, rfl⟩, rfl⟩
    have hlt := beNat_lt out
    have hval : (UInt64.ofNat (beNat out)).toNat = beNat out :=
      UInt64.toNat_ofNat_of_lt' (hlt.trans_le hpow)
    rw [List.append_nil]
    exact ⟨rfl, hval.trans_lt hlt, by rw [hval, beBytes_beNat]⟩
  · rintro ⟨hminimum, hlt, rfl⟩
    refine ⟨beBytes n read.1.toNat, _, [], ⟨rfl, length_beBytes _ _⟩, ⟨?_, rfl⟩, ?_⟩
    · rw [beNat_beBytes_of_lt hlt, UInt64.ofNat_toNat, ← hminimum]
    · rw [List.append_nil]

def minimal (read : UInt64 × UInt64) : Reader UInt64 :=
  if read.1 < read.2 then throw .nonCanonicalCbor >>= fun (_ : PUnit) => pure read.1
  else pure read.1

theorem reads_minimal (hp : Reads p fun read bs => read.2 = minimum ∧ read.1.toNat < 256 ^ n ∧
      bs = beBytes n read.1.toNat) : Reads (p >>= minimal) fun value bs =>
      minimum.toNat ≤ value.toNat ∧ value.toNat < 256 ^ n ∧ bs = beBytes n value.toNat := by
  refine (hp.bind fun read => (reads_pure read.1).guard).congr fun value bs => ?_
  constructor
  · rintro ⟨read, _, _, ⟨rfl, hlt, rfl⟩, ⟨hle, rfl, rfl⟩, rfl⟩
    rw [List.append_nil]
    exact ⟨UInt64.le_iff_toNat_le.mp (UInt64.not_lt.mp hle), hlt, rfl⟩
  · rintro ⟨hle, hlt, rfl⟩
    exact ⟨(value, minimum), _, [], ⟨rfl, hlt, rfl⟩,
      ⟨UInt64.not_lt.mpr (UInt64.le_iff_toNat_le.mpr hle), rfl, rfl⟩, (List.append_nil _).symm⟩

theorem reads_argument (additional : UInt8) :
    Reads (argument additional >>= minimal) fun value bs => HeadArgument value.toNat additional bs := by
  have hrange : ∀ {p : Reader (UInt64 × UInt64)} (n : Nat) (minimum : UInt64),
      headRange additional = some ⟨n, minimum.toNat, 256 ^ n⟩ →
      (Reads p fun read bs => read.2 = minimum ∧ read.1.toNat < 256 ^ n ∧
        bs = beBytes n read.1.toNat) →
      Reads (p >>= minimal) fun value bs => HeadArgument value.toNat additional bs := by
    intro p n minimum hsome hp
    refine (reads_minimal hp).congr fun value bs => ?_
    rw [HeadArgument, hsome]
    simp
  rw [argument]
  split
  · rename_i hle
    have hzero : ¬additional.toUInt64 < 0 := UInt64.not_lt.mpr (UInt64.zero_le ..)
    rw [pure_bind, minimal, if_neg hzero]
    refine (reads_pure _).congr fun value bs => ?_
    rw [HeadArgument, headRange, if_pos hle]
    constructor
    · rintro ⟨rfl, rfl⟩
      exact ⟨_, rfl, le_rfl, Nat.lt_succ_self _, rfl⟩
    · rintro ⟨_, ⟨⟩, hleast, hbound, rfl⟩
      refine ⟨UInt64.toNat_inj.mp ?_, rfl⟩
      exact Nat.le_antisymm (Nat.le_of_lt_succ hbound) hleast
  split
  · rename_i hone
    subst hone
    refine hrange 1 24 rfl ((reads_byte.bind fun value => reads_pure _).congr fun read bs => ?_)
    constructor
    · rintro ⟨value, _, _, rfl, ⟨rfl, rfl⟩, rfl⟩
      refine ⟨rfl, value.toNat_lt, ?_⟩
      exact congrArg (fun byte => [byte]) UInt8.ofNat_toNat.symm
    · rintro ⟨hminimum, hlt, rfl⟩
      have hval : (UInt8.ofNat read.1.toNat).toUInt64 = read.1 := by
        apply UInt64.toNat_inj.mp
        rw [UInt8.toNat_toUInt64, UInt8.toNat_ofNat']
        exact Nat.mod_eq_of_lt hlt
      exact ⟨UInt8.ofNat read.1.toNat, _, [], rfl, ⟨Prod.ext hval.symm hminimum, rfl⟩, rfl⟩
  split
  · rename_i htwo
    subst htwo
    exact hrange 2 0x100 rfl (reads_wide (by decide))
  split
  · rename_i hfour
    subst hfour
    exact hrange 4 0x10000 rfl (reads_wide (by decide))
  split
  · rename_i height
    subst height
    exact hrange 8 0x100000000 rfl (reads_wide (by decide))
  · rename_i hnotTiny hnotOne hnotTwo hnotFour hnotEight
    have hnone : headRange additional = none := by
      rw [headRange, if_neg hnotTiny, if_neg hnotOne, if_neg hnotTwo, if_neg hnotFour, if_neg hnotEight]
    refine reads_throw ?_
    rintro value bs ⟨_, hsome, -⟩
    rw [hnone] at hsome
    cases hsome

theorem reads_head (hmajor : major < 8) :
    Reads (head major) fun value bs => bs = cborHead major value.toNat := by
  have hread : Reads (head major) fun value bs => ∃ (first : UInt8) (bs₁ bs₂ : Bytes), bs₁ = [first] ∧
      (¬first >>> 5 ≠ major ∧ HeadArgument value.toNat (first &&& 0x1F) bs₂) ∧ bs = bs₁ ++ bs₂ :=
    reads_byte.bind fun first => (reads_argument _).guard
  refine hread.congr fun value bs => ?_
  constructor
  · rintro ⟨first, _, bs₂, rfl, ⟨hfirst, hargument⟩, rfl⟩
    rw [hargument.cborHead_eq, ← not_not.mp hfirst, ← (split_head first).1]
    rfl
  · rintro rfl
    obtain ⟨_, bs₂, hargument⟩ := exists_headArgument value.toNat_lt
    obtain ⟨hhigh, hlow⟩ := join_head hmajor hargument.additional_lt
    rw [hargument.cborHead_eq]
    refine ⟨_, _, bs₂, rfl, ⟨not_not.mpr hhigh, ?_⟩, rfl⟩
    rw [hlow]
    exact hargument

theorem reads_uint : Reads uint fun value bs => bs = cborHead 0 value.toNat := reads_head (by decide)

theorem reads_uintExact :
    Reads (uintExact expected) fun _ bs => bs = cborHead 0 expected.toNat := by
  refine (reads_uint.bind fun value => (reads_pure ()).of_check).congr fun _ bs => ?_
  constructor
  · rintro ⟨value, _, _, rfl, ⟨rfl, -, rfl⟩, rfl⟩
    exact List.append_nil _
  · rintro rfl
    exact ⟨expected, _, [], rfl, ⟨rfl, rfl, rfl⟩, (List.append_nil _).symm⟩

theorem reads_bstr :
    Reads bstr fun out bs => out.length < 2 ^ 64 ∧ bs = cborHead 2 out.length ++ out := by
  refine ((reads_head (by decide)).bind fun length => reads_take).congr fun out bs => ?_
  constructor
  · rintro ⟨length, _, _, rfl, ⟨rfl, hlength⟩, rfl⟩
    rw [hlength]
    exact ⟨length.toNat_lt, rfl⟩
  · rintro ⟨hlt, rfl⟩
    have hlength : (UInt64.ofNat out.length).toNat = out.length := UInt64.toNat_ofNat_of_lt' hlt
    exact ⟨UInt64.ofNat out.length, _, out, rfl, ⟨rfl, hlength.symm⟩, by rw [hlength]⟩

end Reader

end Lichen.Gateway
