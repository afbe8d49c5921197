import Lichen.Core.Types
import Lichen.Schc.Checksum

namespace Lichen

open Lib Lichen.Core

/-- Fold the carries of a sum into its low word, until none is left. -/
def foldSum (sum : Nat) : Nat :=
  if sum >>> 16 = 0 then sum else foldSum ((sum &&& 0xFFFF) + (sum >>> 16))
termination_by sum
decreasing_by
  rw [carry_eq]
  rw [Nat.shiftRight_eq_div_pow] at *
  omega

theorem foldSum_eq (sum : Nat) : foldSum sum = ocWord sum := by
  induction sum using foldSum.induct with
  | case1 sum h =>
    rw [foldSum, if_pos h]
    rw [Nat.shiftRight_eq_div_pow] at h
    rw [ocWord_of_le (by omega)]
  | case2 sum h ih =>
    rw [foldSum, if_neg h, ih, carry_eq]
    rw [Nat.shiftRight_eq_div_pow] at h
    simp only [ocWord]
    split <;> split <;> omega

namespace Core

def sumWords (data : Bytes) : Nat := Schc.checksumBytes data

variable (src dst : Ipv6Addr) (nextHeader : UInt8) (payload : Bytes)

def upperLayerChecksum : Nat :=
  let sum := Schc.pseudoSum src.toList dst.toList nextHeader (payload.length % 2 ^ 32)
  0xFFFF - foldSum (ocAdd sum (sumWords payload))

def upperLayerChecksumValid : Bool :=
  payload.length ≥ 4 ∧ upperLayerChecksum src dst nextHeader payload = 0

end Core

namespace Ipv6

def addChecksumWord (sum word : Nat) : Nat :=
  let sum := sum + word
  (sum &&& 0xFFFF) + (sum >>> 16)

def addAddress (sum : Nat) : Bytes → Nat
  | a :: b :: rest => addAddress (addChecksumWord sum (a.toNat * 256 + b.toNat)) rest
  | _ => sum

/-- The words of a message from the offset `i` on, but for the checksum at offset 2. -/
def sumMessage (i : Nat) : Bytes → Nat
  | a :: b :: rest => (if i = 2 then 0 else a.toNat * 256 + b.toNat) + sumMessage (i + 2) rest
  | [a] => if i = 2 then 0 else a.toNat * 256
  | [] => 0

section

variable (src dst : Ipv6Addr) (message : Bytes)

def icmpv6Checksum : Option Nat :=
  if message.length ≥ 2 ^ 32 then none
  else
    let sum := addAddress (addAddress 0 src.toList) dst.toList
    some (0xFFFF - foldSum (sum + message.length + 58 + sumMessage 0 message))

def verifyIcmpv6Checksum : Bool :=
  if message.length < 4 then false
  else icmpv6Checksum src dst message = some (beNat (message.extract 2 4))

end

theorem addAddress_eq (x : Nat) (h : data.length % 2 = 0) :
    addAddress (ocWord x) data = ocWord (x + wordSum data) := by
  induction data using wordSum.induct generalizing x with
  | case1 a b rest ih =>
    have hadd : addChecksumWord (ocWord x) (a.toNat * 256 + b.toNat) =
        ocWord (x + (a.toNat * 256 + b.toNat)) := by
      rw [← ocAdd_ocWord_of_le _ (word_le a b), addChecksumWord, ocAdd, carry_eq,
        Nat.shiftRight_eq_div_pow]
      split <;> omega
    rw [addAddress, hadd, ih _ (by simp at h; omega), wordSum, Nat.add_assoc]
  | case2 => simp at h
  | case3 => rfl

theorem sumMessage_eq (hi : 2 < i) : sumMessage i data = wordSum data := by
  induction data using wordSum.induct generalizing i with
  | case1 a b rest ih => rw [sumMessage, if_neg (by omega), ih (by omega), wordSum]
  | case2 => rw [sumMessage, if_neg (by omega), wordSum]
  | case3 => rfl

variable {src dst : Ipv6Addr} {message : Bytes}

theorem upperLayerChecksumValid_iff (hmin : 4 ≤ message.length) (hmax : message.length ≤ 0xFFFF) :
    upperLayerChecksumValid src dst 58 message = true ↔
      ocWord (Schc.icmpv6Sum src.toList dst.toList message) = 0xFFFF := by
  have hlength : message.length % 2 ^ 32 = message.length := by omega
  have hle := ocWord_le (Schc.icmpv6Sum src.toList dst.toList message)
  rw [upperLayerChecksumValid, decide_eq_true_eq, and_iff_right hmin, upperLayerChecksum, hlength,
    Schc.pseudoSum_eq src.toList_length dst.toList_length 58 hmax, sumWords, Schc.checksumBytes_eq]
  simp only [ocAdd_ocWord, foldSum_eq, ocWord_of_le (ocWord_le _)]
  rw [← Schc.icmpv6Sum]
  omega

theorem field_eq : beNat ((icmpType :: code :: high :: low :: body).extract 2 4) =
    high.toNat * 256 + low.toNat := by
  simp [beNat]

theorem verifyIcmpv6Checksum_iff (hlength : 4 + body.length ≤ 0xFFFF) :
    verifyIcmpv6Checksum src dst (icmpType :: code :: high :: low :: body) = true ↔
      0xFFFF - ocWord (Schc.icmpv6Sum src.toList dst.toList (icmpType :: code :: 0 :: 0 :: body)) =
        high.toNat * 256 + low.toNat := by
  have hsum : wordSum src.toList + wordSum dst.toList + (icmpType :: code :: high :: low ::
      body).length + 58 + sumMessage 0 (icmpType :: code :: high :: low :: body) =
      Schc.icmpv6Sum src.toList dst.toList (icmpType :: code :: 0 :: 0 :: body) := by
    simp [sumMessage, sumMessage_eq, Schc.icmpv6Sum, wordSum]
  have haddresses : addAddress (addAddress 0 src.toList) dst.toList =
      ocWord (wordSum src.toList + wordSum dst.toList) := by
    have hsrc := addAddress_eq 0 (by simp : src.toList.length % 2 = 0)
    rw [Nat.zero_add] at hsrc
    rw [← addAddress_eq _ (by simp), ← hsrc]
    rfl
  rw [verifyIcmpv6Checksum, if_neg (by simp), icmpv6Checksum, if_neg (by simp; omega), field_eq,
    haddresses, decide_eq_true_eq, Option.some.injEq, foldSum_eq, ← hsum]
  simp only [Nat.add_assoc, ocWord_ocWord_add]

/-- The two checks agree, unless the checksum field has the other representation of zero and the
message sums to zero. -/
theorem checksum_checks_agree_iff (src dst : Ipv6Addr) (message : Bytes)
    (hmin : 4 ≤ message.length) (hmax : message.length ≤ 0xFFFF) :
    verifyIcmpv6Checksum src dst message = upperLayerChecksumValid src dst 58 message ↔
      ¬(beNat (message.extract 2 4) = 0xFFFF ∧
        0xFFFF ∣ Schc.icmpv6Sum src.toList dst.toList message) := by
  obtain _ | ⟨_, _ | ⟨_, _ | ⟨high, _ | ⟨low, _⟩⟩⟩⟩ := message
  iterate 4 simp at hmin
  rw [Bool.eq_iff_iff, upperLayerChecksumValid_iff hmin hmax, Schc.icmpv6Sum_field, field_eq,
    verifyIcmpv6Checksum_iff]
  · exact complement_iff_ocWord_add Schc.icmpv6Sum_pos (word_le high low)
  · simp only [List.length_cons] at hmax
    omega

def zeroAddr : Ipv6Addr := List.Vector.replicate 16 0

theorem checksum_checks_agree_of_ones : verifyIcmpv6Checksum zeroAddr zeroAddr [0, 0, 0xFF, 0xFF] =
    upperLayerChecksumValid zeroAddr zeroAddr 58 [0, 0, 0xFF, 0xFF] :=
  (checksum_checks_agree_iff _ _ _ (by decide) (by decide)).mpr (by decide)

theorem checksum_checks_differ :
    verifyIcmpv6Checksum zeroAddr zeroAddr [0xFF, 0xC1, 0xFF, 0xFF] = false ∧
      upperLayerChecksumValid zeroAddr zeroAddr 58 [0xFF, 0xC1, 0xFF, 0xFF] = true := by
  rw [upperLayerChecksumValid_iff (by decide) (by decide), ← Bool.not_eq_true,
    verifyIcmpv6Checksum_iff (by decide)]
  decide

end Ipv6

end Lichen
